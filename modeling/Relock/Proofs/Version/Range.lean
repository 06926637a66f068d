import Mathlib.Data.List.Basic
import Relock.Text.Blank
import Relock.Version.Range

/-!
# Ranges read back

What `Range.chars` writes, `Range.parse?` reads as the same range, so that ranges with the same text
are the same (`Range.render_injective`). The readers take a part from the front of a text and give
the rest, so each part has one lemma of the form "the part as it is written, followed by anything
that cannot be more of it, is read as the part and the rest":

* numbers (`Semver.takeNumber?_digits`), which no digit may follow;
* pre-releases (`Comparator.takePrerelease?_append`) and comparators (`Comparator.take?_append`),
  which only a comma may follow;
* lists of comparators (`Range.parseList?_intercalate`).
-/

namespace Relock

/-! ## Numbers -/

namespace Semver

theorem isDigit_of_mem_digits {n : UInt64} {c : Char} (h : c ∈ digits n) : c.isDigit = true :=
  Nat.isDigit_of_mem_toDigits (by decide) (by decide) h

/-- A text that begins with a number begins with a digit. -/
theorem digits_append_ne (n : UInt64) {rest cs : List Char} {c : Char} (hc : c.isDigit = false) :
    digits n ++ rest ≠ c :: cs := by
  intro heq
  cases hdigits : digits n with
  | nil => exact absurd hdigits Nat.toDigits_ne_nil
  | cons first others =>
      rw [hdigits, List.cons_append] at heq
      obtain ⟨rfl, -⟩ := List.cons.inj heq
      have hfirst : first.isDigit = true := isDigit_of_mem_digits (hdigits ▸ List.mem_cons_self)
      rw [hfirst] at hc
      exact absurd hc (by simp)

/-- Only zero begins with a zero. -/
theorem head?_toDigits_ne_zero {n : Nat} (h : 0 < n) : (Nat.toDigits 10 n).head? ≠ some '0' := by
  induction n using Nat.strongRecOn with
  | ind n ih =>
      by_cases hlt : n < 10
      · have hdigit : ∀ n < 10, 0 < n → [Nat.digitChar n].head? ≠ some '0' := by decide
        rw [Nat.toDigits_of_lt_base hlt]
        exact hdigit n hlt h
      · rw [Nat.toDigits_of_base_le (by decide) (by omega),
          List.head?_append_of_ne_nil _ Nat.toDigits_ne_nil]
        exact ih (n / 10) (by omega) (by omega)

theorem number?_digits (n : UInt64) : number? (digits n) = some n := by
  have hvalue : Nat.ofDigitChars 10 (digits n) 0 = n.toNat := Nat.ofDigitChars_ten_toDigits
  simp only [number?, hvalue]
  rw [if_pos n.toNat_lt_size, UInt64.ofNat_toNat]

/-- A number that no digit follows is read back. -/
theorem takeNumber?_digits (n : UInt64) {rest : List Char}
    (hrest : ∀ c ∈ rest.head?, c.isDigit = false) :
    takeNumber? (digits n ++ rest) = some (n, rest) := by
  obtain ⟨htake, hdrop⟩ :=
    Text.takeWhile_dropWhile_append (fun c (hc : c ∈ digits n) => isDigit_of_mem_digits hc) hrest
  unfold takeNumber?
  rw [htake, hdrop]
  split
  · next hnil => exact absurd hnil Nat.toDigits_ne_nil
  · next hzero =>
    -- several digits are those of a number that is not zero
    have hpos : 0 < n.toNat := by
      by_contra hnot
      have hn : n.toNat = 0 := by omega
      rw [digits, hn] at hzero
      exact absurd hzero (by simp)
    exact absurd (by rw [← digits, hzero]; rfl) (head?_toDigits_ne_zero hpos)
  · rw [number?_digits]
    rfl

end Semver

/-! ## Pre-releases -/

namespace Identifier

theorem ofChars?_chars (i : Identifier) : ofChars? i.chars = some i := by
  unfold ofChars?
  rw [dif_pos ⟨i.ne_nil, i.all_identifierChar⟩]

/-- Identifiers with dots between them are read back. -/
theorem splitDots?_joinDots {ids : List Identifier} (h : ids ≠ []) :
    splitDots? (joinDots ids) = some ids := by
  have hdots : ∀ part ∈ ids.map (·.chars), '.' ∉ part := by
    intro part hpart hdot
    obtain ⟨i, -, rfl⟩ := List.mem_map.mp hpart
    exact absurd (List.all_eq_true.mp i.all_identifierChar '.' hdot) (by decide)
  unfold splitDots? joinDots
  rw [List.splitOn_intercalate '.' hdots (by simpa using h), List.mapM_map]
  clear h hdots
  induction ids with
  | nil => rfl
  | cons i ids ih =>
      rw [List.mapM_cons, ih]
      simp [ofChars?_chars]

/-- Identifiers and the dots between them hold no other characters. -/
theorem isSuffixChar_of_mem_joinDots {ids : List Identifier} {c : Char} (h : c ∈ joinDots ids) :
    Comparator.isSuffixChar c = true := by
  unfold joinDots at h
  induction ids with
  | nil => exact absurd h (by simp)
  | cons i ids ih =>
      have hown : c ∈ i.chars → Comparator.isSuffixChar c = true := by
        intro hc
        have hchar := List.all_eq_true.mp i.all_identifierChar c hc
        simp [Comparator.isSuffixChar, hchar]
      cases ids with
      | nil => exact hown (by simpa using h)
      | cons other ids =>
          rw [List.map_cons, List.map_cons, List.intercalate_cons_cons, List.append_assoc,
            List.mem_append, List.mem_append, List.mem_singleton] at h
          rcases h with hc | rfl | hc
          · exact hown hc
          · rfl
          · exact ih (by simpa using hc)

end Identifier

theorem Prerelease.parse?_chars {pre : Prerelease} (h : pre.isNone = false) :
    parse? pre.chars = some pre := by
  have hne : pre.ids ≠ [] := by
    intro hnil
    rw [isNone, hnil] at h
    exact absurd h (by simp)
  unfold parse? chars
  rw [Identifier.splitDots?_joinDots hne]
  exact dif_pos pre.canonical

/-! ## Operators -/

namespace Operator

/-- A number is no operator. -/
theorem take?_digits (n : UInt64) (rest : List Char) : take? (Semver.digits n ++ rest) = none := by
  unfold take?
  split
  case h_8 => rfl
  all_goals next heq => exact absurd heq (Semver.digits_append_ne n (by decide))

/-- An operator before a number is read back. -/
theorem take?_sign (op : Operator) (n : UInt64) (rest : List Char) :
    take? (op.sign ++ (Semver.digits n ++ rest)) = some (op, Semver.digits n ++ rest) := by
  -- what follows a `>` or a `<` makes it no longer sign
  have hne : ∀ cs, Semver.digits n ++ rest ≠ '=' :: cs :=
    fun cs => Semver.digits_append_ne n (by decide)
  cases op with
  | exact => rfl
  | greater => simp [sign, take?]
  | greaterEq => rfl
  | less => simp [sign, take?]
  | lessEq => rfl
  | tilde => rfl
  | caret => rfl

end Operator

/-! ## Comparators -/

/-- A text that is over, or goes on with a comma. -/
def AtComma (rest : List Char) : Prop :=
  ∀ c ∈ rest.head?, c = ','

namespace Comparator

variable {rest : List Char}

/-- A pre-release as it is written after the third number. -/
theorem takePrerelease?_append (pre : Prerelease) (hrest : AtComma rest) :
    takePrerelease? ((if pre.isNone then [] else '-' :: pre.chars) ++ rest) = some (pre, rest) := by
  by_cases hnone : pre.isNone = true
  · obtain ⟨ids, hcanonical⟩ := pre
    obtain rfl : ids = [] := by simpa [Prerelease.isNone] using hnone
    rw [if_pos hnone, List.nil_append]
    unfold takePrerelease?
    split
    · exact absurd (hrest '-' rfl) (by decide)
    · rfl
  · rw [if_neg hnone]
    have hend : ∀ c ∈ rest.head?, isSuffixChar c = false := by
      intro c hc
      rw [hrest c hc]
      decide
    obtain ⟨htake, hdrop⟩ := Text.takeWhile_dropWhile_append
      (fun c (hc : c ∈ pre.chars) => Identifier.isSuffixChar_of_mem_joinDots hc) hend
    rw [List.cons_append, takePrerelease?, htake, hdrop,
      Prerelease.parse?_chars (by simpa using hnone)]
    rfl

/-- No build metadata is written. -/
theorem skipBuild?_of_atComma (hrest : AtComma rest) : skipBuild? rest = some rest := by
  unfold skipBuild?
  split
  · exact absurd (hrest '+' rfl) (by decide)
  · rfl

theorem skipSpaces_of_atComma (hrest : AtComma rest) : skipSpaces rest = rest := by
  cases rest with
  | nil => rfl
  | cons c cs =>
      obtain rfl : c = ',' := hrest c rfl
      rfl

theorem isDigit_of_atComma (hrest : AtComma rest) : ∀ c ∈ rest.head?, c.isDigit = false := by
  intro c hc
  rw [hrest c hc]
  rfl

/-- A number is no wildcard. -/
theorem takeWildcard?_digits (n : UInt64) (rest : List Char) :
    takeWildcard? (Semver.digits n ++ rest) = none := by
  unfold takeWildcard?
  split
  case h_4 => rfl
  all_goals next heq => exact absurd heq (Semver.digits_append_ne n (by decide))

theorem skipSpaces_digits (n : UInt64) (rest : List Char) :
    skipSpaces (Semver.digits n ++ rest) = Semver.digits n ++ rest := by
  unfold skipSpaces
  cases htext : Semver.digits n ++ rest with
  | nil => rfl
  | cons c cs =>
      have hspace : c ≠ ' ' := by
        rintro rfl
        exact absurd htext (Semver.digits_append_ne n (by decide))
      rw [List.dropWhile_cons_of_neg (by simpa using hspace)]

/-! ## The parts after the first number -/

/-- The third number with its pre-release. -/
theorem takePatch?_append (op? : Option Operator) (a b c : UInt64) (pre : Prerelease)
    (hrest : AtComma rest) :
    takePatch? op? a b (Semver.digits c ++
        ((if pre.isNone then [] else '-' :: pre.chars) ++ rest)) =
      some (bound (op?.getD .caret) (.full a b c pre), rest) := by
  have hend : ∀ d ∈ ((if pre.isNone then [] else '-' :: pre.chars) ++ rest).head?,
      d.isDigit = false := by
    by_cases hnone : pre.isNone = true
    · rw [if_pos hnone, List.nil_append]
      exact isDigit_of_atComma hrest
    · rw [if_neg hnone]
      intro d hd
      obtain rfl : '-' = d := by simpa using hd
      rfl
  simp only [takePatch?, takeWildcard?_digits, Semver.takeNumber?_digits c hend,
    takePrerelease?_append pre hrest, skipBuild?_of_atComma hrest, Option.bind_eq_bind,
    Option.bind_some]
  rfl

/-- The second number, when there is no third one. -/
theorem takeMinor?_last (op? : Option Operator) (a b : UInt64) (hrest : AtComma rest) :
    takeMinor? op? a (Semver.digits b ++ rest) =
      some (bound (op?.getD .caret) (.minor a b), rest) := by
  have hend := isDigit_of_atComma hrest
  simp only [takeMinor?, takeWildcard?_digits, Semver.takeNumber?_digits b hend,
    Option.bind_eq_bind, Option.bind_some]
  split
  · exact absurd (hrest '.' rfl) (by decide)
  · rfl

/-- The second number, when there is a third one or a wildcard for it. -/
theorem takeMinor?_dot (op? : Option Operator) (a b : UInt64) (cs : List Char) :
    takeMinor? op? a (Semver.digits b ++ '.' :: cs) = takePatch? op? a b cs := by
  have hend : ∀ c ∈ ('.' :: cs).head?, c.isDigit = false := by
    intro c hc
    obtain rfl : '.' = c := by simpa using hc
    rfl
  simp only [takeMinor?, takeWildcard?_digits, Semver.takeNumber?_digits b hend,
    Option.bind_eq_bind, Option.bind_some]

/-! ## Whole comparators -/

/-- A comparator of one number. -/
theorem take?_major (op : Operator) (a : UInt64) (hrest : AtComma rest) :
    take? (op.sign ++ (Semver.digits a ++ rest)) = some (bound op (.major a), rest) := by
  have hend := isDigit_of_atComma hrest
  simp only [take?, Operator.take?_sign, skipSpaces_digits, Semver.takeNumber?_digits a hend,
    Option.bind_eq_bind, Option.bind_some]
  split
  · exact absurd (hrest '.' rfl) (by decide)
  · rw [skipSpaces_of_atComma hrest]
    rfl

/-- A comparator that goes on after the first number. -/
theorem take?_dot {op? : Option Operator} {a : UInt64} {cs : List Char} {comparator : Comparator}
    (hread : takeMinor? op? a cs = some (comparator, rest)) (hrest : AtComma rest) :
    take? (op?.elim [] Operator.sign ++ (Semver.digits a ++ '.' :: cs)) =
      some (comparator, rest) := by
  have hend : ∀ c ∈ ('.' :: cs).head?, c.isDigit = false := by
    intro c hc
    obtain rfl : '.' = c := by simpa using hc
    rfl
  cases op? with
  | none =>
      simp only [Option.elim_none, List.nil_append, take?, Operator.take?_digits,
        skipSpaces_digits, Semver.takeNumber?_digits a hend, Option.bind_eq_bind,
        Option.bind_some, hread, skipSpaces_of_atComma hrest]
      rfl
  | some op =>
      simp only [Option.elim_some, take?, Operator.take?_sign, skipSpaces_digits,
        Semver.takeNumber?_digits a hend, Option.bind_eq_bind, Option.bind_some, hread,
        skipSpaces_of_atComma hrest]
      rfl

/-- A comparator is read back. -/
theorem take?_append (comparator : Comparator) (hrest : AtComma rest) :
    take? (comparator.chars ++ rest) = some (comparator, rest) := by
  cases comparator with
  | bound op version =>
      cases version with
      | major a =>
          rw [chars, Partial.chars, List.append_assoc]
          exact take?_major op a hrest
      | minor a b =>
          have hminor := takeMinor?_last (some op) a b hrest
          simpa [chars, Partial.chars] using take?_dot hminor hrest
      | full a b c pre =>
          have hpatch := takePatch?_append (some op) a b c pre hrest
          rw [← takeMinor?_dot] at hpatch
          simpa [chars, Partial.chars] using take?_dot hpatch hrest
  | anyMinor a =>
      -- at a comma or the end there is no second wildcard to skip
      have hskip : skipSecondWildcard? rest = some rest := by
        unfold skipSecondWildcard?
        split
        · exact absurd (hrest '.' rfl) (by decide)
        · rfl
      have hwild : takeMinor? none a ('*' :: rest) = some (anyMinor a, rest) := by
        simp only [takeMinor?, takeWildcard?, hskip]
        rfl
      simpa [chars] using take?_dot hwild hrest
  | anyPatch a b =>
      have hwild : takePatch? none a b ('*' :: rest) = some (anyPatch a b, rest) := rfl
      rw [← takeMinor?_dot] at hwild
      simpa [chars] using take?_dot hwild hrest

/-- A comparator begins with a sign or a digit, and so with no space and no wildcard. -/
theorem exists_chars_append (comparator : Comparator) (rest : List Char) :
    ∃ c cs, comparator.chars ++ rest = c :: cs ∧ c ∉ [' ', '*', 'x', 'X'] := by
  have hdigits : ∀ (n : UInt64) (more : List Char),
      ∃ c cs, Semver.digits n ++ more = c :: cs ∧ c ∉ [' ', '*', 'x', 'X'] := by
    intro n more
    cases htext : Semver.digits n ++ more with
    | nil => exact absurd (List.append_eq_nil_iff.mp htext).1 Nat.toDigits_ne_nil
    | cons c cs =>
        refine ⟨c, cs, rfl, ?_⟩
        intro hmem
        have hother : [' ', '*', 'x', 'X'].all (!·.isDigit) = true := by decide
        have hdigit : c.isDigit = false := by simpa using List.all_eq_true.mp hother c hmem
        exact Semver.digits_append_ne n hdigit htext
  cases comparator with
  | bound op version => cases op <;> exact ⟨_, _, rfl, by decide⟩
  | anyMinor a => simpa only [chars, List.append_assoc] using hdigits a _
  | anyPatch a b => simpa only [chars, List.append_assoc] using hdigits a _

theorem skipSpaces_chars_append (comparator : Comparator) (rest : List Char) :
    skipSpaces (comparator.chars ++ rest) = comparator.chars ++ rest := by
  obtain ⟨c, cs, htext, hc⟩ := exists_chars_append comparator rest
  have hspace : c ≠ ' ' := by
    rintro rfl
    exact hc (by decide)
  rw [htext, skipSpaces, List.dropWhile_cons_of_neg (by simpa using hspace)]

theorem takeWildcard?_chars_append (comparator : Comparator) (rest : List Char) :
    takeWildcard? (comparator.chars ++ rest) = none := by
  obtain ⟨c, cs, htext, hc⟩ := exists_chars_append comparator rest
  rw [htext]
  unfold takeWildcard?
  split
  case h_4 => rfl
  all_goals next heq => exact absurd ((List.cons.inj heq).1 ▸ hc) (by decide)

end Comparator

/-! ## Ranges -/

namespace Range

/-- What is written of at least one comparator begins with the first of them. -/
theorem exists_intercalate_eq (comparator : Comparator) (comparators : List Comparator) :
    ∃ rest, AtComma rest ∧
      [',', ' '].intercalate ((comparator :: comparators).map (·.chars)) =
        comparator.chars ++ rest := by
  cases comparators with
  | nil => exact ⟨[], by simp [AtComma], by simp⟩
  | cons second others =>
      refine ⟨',' :: ' ' :: [',', ' '].intercalate ((second :: others).map (·.chars)), ?_, ?_⟩
      · simp [AtComma]
      · simp

/-- Comparators with commas between them are read back, if there is room for them. -/
theorem parseList?_intercalate {room : Nat} {comparator : Comparator}
    {comparators : List Comparator} (hroom : comparators.length < room) :
    parseList? room ([',', ' '].intercalate ((comparator :: comparators).map (·.chars))) =
      some (comparator :: comparators) := by
  induction comparators generalizing comparator room with
  | nil =>
      obtain ⟨room, rfl⟩ : ∃ left, room = left + 1 := ⟨room - 1, by simp at hroom; omega⟩
      have hread := comparator.take?_append (show AtComma [] by simp [AtComma])
      rw [List.append_nil] at hread
      simp [parseList?, hread]
  | cons second others ih =>
      obtain ⟨room, rfl⟩ : ∃ left, room = left + 1 := ⟨room - 1, by simp at hroom; omega⟩
      have hothers := @ih room second (by simpa using hroom)
      obtain ⟨rest, -, htext⟩ := exists_intercalate_eq second others
      have hread := comparator.take?_append
        (show AtComma (',' :: ' ' :: (second.chars ++ rest)) by simp [AtComma])
      have hspaces : Comparator.skipSpaces (' ' :: (second.chars ++ rest)) =
          second.chars ++ rest :=
        second.skipSpaces_chars_append rest
      rw [htext] at hothers
      rw [List.map_cons, List.map_cons, List.intercalate_cons_cons, ← List.map_cons, htext]
      simp [parseList?, hread, hspaces, hothers]

/-- A range is read back. -/
theorem parse?_chars (r : Range) : parse? r.chars = some r := by
  obtain ⟨comparators, hlength⟩ := r
  cases comparators with
  | nil => rfl
  | cons comparator comparators =>
      have hlist := @parseList?_intercalate maxComparators comparator comparators hlength
      obtain ⟨rest, -, htext⟩ := exists_intercalate_eq comparator comparators
      rw [htext] at hlist
      have hchars : chars ⟨comparator :: comparators, hlength⟩ = comparator.chars ++ rest := htext
      rw [hchars]
      unfold parse?
      simp only [Comparator.skipSpaces_chars_append, Comparator.takeWildcard?_chars_append]
      split
      · next found hfound =>
        rw [Comparator.skipSpaces_chars_append, hlist] at hfound
        cases hfound
        rfl
      · next hnone =>
        rw [Comparator.skipSpaces_chars_append, hlist] at hnone
        exact absurd hnone (by simp)

theorem render_injective : Function.Injective render := by
  intro r r' h
  have hchars : r.chars = r'.chars := by
    simpa [render] using congrArg String.toList h
  have hread := parse?_chars r
  rw [hchars, parse?_chars] at hread
  exact (Option.some.inj hread).symm

end Range

end Relock
