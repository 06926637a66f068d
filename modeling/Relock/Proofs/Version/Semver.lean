import Mathlib.Data.List.Induction
import Mathlib.Data.List.TakeWhile
import Relock.Proofs.Text.Blank
import Relock.Proofs.Version.Range
import Relock.Version.Basic

/-!
# Semantic versions have one spelling each

A text is read as a version if and only if it is the text of that version
(`Semver.parse?_eq_some_iff`). So each reader takes exactly what is written:

* numbers without leading zeros (`Semver.takeNumber?_eq_some_iff`);
* identifiers with dots between them (`Identifier.splitDots?_eq_some_iff`) and pre-releases
  (`Prerelease.parse?_eq_some_iff`);
* what follows the three numbers (`Semver.parseSuffix?_eq_some_iff`).

There are no blanks in that text, so a complete version is read alike as a label and as a tag
(`Label.number?_of_strictNumber?`, `Version.ofTag_of_strictNumber?`).
-/

namespace Relock

/-! ## Numbers -/

theorem digitChar_digitValue {c : Char} (h : c.isDigit = true) :
    Nat.digitChar (c.toNat - '0'.toNat) = c ∧ c.toNat - '0'.toNat < 10 := by
  simp only [Char.isDigit, Bool.and_eq_true, decide_eq_true_eq, UInt32.le_iff_toNat_le] at h
  obtain ⟨hlow, hhigh⟩ := h
  change 48 ≤ c.toNat at hlow
  change c.toNat ≤ 57 at hhigh
  have hall : ∀ n < 10, Nat.digitChar n = Char.ofNat (48 + n) := by decide
  have hlt : c.toNat - '0'.toNat < 10 := by
    change c.toNat - 48 < 10
    omega
  refine ⟨?_, hlt⟩
  rw [hall _ hlt]
  change Char.ofNat (48 + (c.toNat - 48)) = c
  rw [Nat.add_sub_cancel' hlow, Char.ofNat_toNat]

/-- Digits without a leading zero are the digits of their value. -/
theorem toDigits_ofDigitChars {cs : List Char} (hne : cs ≠ [])
    (hdigits : ∀ c ∈ cs, c.isDigit = true) (hzero : cs.head? = some '0' → cs.length = 1) :
    Nat.toDigits 10 (Nat.ofDigitChars 10 cs 0) = cs := by
  induction cs using List.reverseRecOn with
  | nil => exact absurd rfl hne
  | append_singleton front last ih =>
      obtain ⟨hchar, hlt⟩ := digitChar_digitValue (hdigits last (by simp))
      rw [Nat.ofDigitChars_append, Nat.ofDigitChars_cons, Nat.ofDigitChars_nil]
      rcases List.eq_nil_or_concat front with rfl | hfront
      · rw [Nat.ofDigitChars_nil, Nat.mul_zero, Nat.zero_add, Nat.toDigits_of_lt_base hlt, hchar,
          List.nil_append]
      · -- several digits do not begin with a zero, so those before the last one have a value
        have hnil : front ≠ [] := by
          obtain ⟨_, _, rfl⟩ := hfront
          simp
        have hhead : front.head? ≠ some '0' := by
          intro hhead
          have hone := hzero (by rw [List.head?_append, hhead]; rfl)
          rw [List.length_append, List.length_singleton] at hone
          exact hnil (List.length_eq_zero_iff.mp (by omega))
        have hvalue := ih hnil (fun c hc => hdigits c (List.mem_append_left _ hc))
          fun h => absurd h hhead
        have hpos : 0 < Nat.ofDigitChars 10 front 0 := by
          by_contra hnot
          rw [Nat.eq_zero_of_not_pos hnot] at hvalue
          exact hhead (by rw [← hvalue]; rfl)
        rw [← Nat.toDigits_append_toDigits (by decide) hpos hlt, hvalue,
          Nat.toDigits_of_lt_base hlt, hchar]

namespace Semver

/-- Digits that are read as a number are its digits, unless they begin with a zero. -/
theorem digits_of_number? {cs : List Char} {n : UInt64} (h : number? cs = some n) (hne : cs ≠ [])
    (hdigits : ∀ c ∈ cs, c.isDigit = true) (hzero : cs.head? = some '0' → cs.length = 1) :
    digits n = cs := by
  unfold number? at h
  dsimp only at h
  split at h
  · next hlt =>
    obtain rfl := Option.some.inj h
    rw [digits, UInt64.toNat_ofNat_of_lt' hlt, toDigits_ofDigitChars hne hdigits hzero]
  · exact absurd h (by simp)

/-- A number is read from its digits, as far as they go. -/
theorem takeNumber?_eq_some_iff {cs rest : List Char} {n : UInt64} :
    takeNumber? cs = some (n, rest) ↔
      cs = digits n ++ rest ∧ ∀ c ∈ rest.head?, c.isDigit = false := by
  constructor
  · intro h
    -- all digits are taken at once, so what is left begins with another character
    have hall : ∀ c ∈ cs.takeWhile Char.isDigit, c.isDigit = true :=
      fun c hc => List.mem_takeWhile_imp hc
    unfold takeNumber? at h
    split at h
    · exact absurd h (by simp)
    · exact absurd h (by simp)
    · next hne hzero =>
      obtain ⟨m, hm, hrest⟩ := Option.map_eq_some_iff.mp h
      obtain ⟨rfl, rfl⟩ := Prod.mk.inj hrest
      have hhead : (cs.takeWhile Char.isDigit).head? = some '0' →
          (cs.takeWhile Char.isDigit).length = 1 := by
        intro hhead
        obtain ⟨others, hothers⟩ := List.head?_eq_some_iff.mp hhead
        cases others with
        | nil => rw [hothers]; rfl
        | cons second others => exact absurd hothers (hzero second others)
      rw [digits_of_number? hm hne hall hhead, List.takeWhile_append_dropWhile]
      refine ⟨rfl, fun c hc => ?_⟩
      have hnot := List.head?_dropWhile_not Char.isDigit cs
      rw [hc] at hnot
      simpa using hnot
  · rintro ⟨rfl, hrest⟩
    exact takeNumber?_digits n hrest

end Semver

/-! ## Pre-releases -/

namespace Identifier

theorem chars_of_ofChars? {cs : List Char} {i : Identifier} (h : ofChars? cs = some i) :
    i.chars = cs := by
  unfold ofChars? at h
  split at h
  · obtain rfl := Option.some.inj h
    rfl
  · exact absurd h (by simp)

theorem map_chars_of_mapM {parts : List (List Char)} {ids : List Identifier}
    (h : parts.mapM ofChars? = some ids) : ids.map (·.chars) = parts := by
  induction parts generalizing ids with
  | nil =>
      obtain rfl := Option.some.inj h
      rfl
  | cons part parts ih =>
      rw [List.mapM_cons] at h
      obtain ⟨i, hi, h⟩ := Option.bind_eq_some_iff.mp h
      obtain ⟨others, hothers, h⟩ := Option.bind_eq_some_iff.mp h
      obtain rfl := Option.some.inj h
      rw [List.map_cons, chars_of_ofChars? hi, ih hothers]

/-- What is read as identifiers are the identifiers with dots between them. -/
theorem splitDots?_eq_some_iff {cs : List Char} {ids : List Identifier} :
    splitDots? cs = some ids ↔ ids ≠ [] ∧ cs = joinDots ids := by
  constructor
  · intro h
    have hparts : ids.map (·.chars) = cs.splitOn '.' := map_chars_of_mapM h
    refine ⟨?_, ?_⟩
    · rintro rfl
      exact List.splitOn_ne_nil '.' cs hparts.symm
    · rw [joinDots, hparts, List.intercalate_splitOn]
  · rintro ⟨hne, rfl⟩
    exact splitDots?_joinDots hne

end Identifier

namespace Prerelease

theorem isNone_eq_false_iff {pre : Prerelease} : pre.isNone = false ↔ pre.ids ≠ [] := by
  simp [isNone]

/-- What is read as a pre-release is the text of a pre-release that is not empty. -/
theorem parse?_eq_some_iff {cs : List Char} {pre : Prerelease} :
    parse? cs = some pre ↔ pre.isNone = false ∧ cs = pre.chars := by
  constructor
  · intro h
    unfold parse? at h
    obtain ⟨ids, hids, h⟩ := Option.bind_eq_some_iff.mp h
    split at h
    · obtain rfl := Option.some.inj h
      rw [isNone_eq_false_iff]
      exact Identifier.splitDots?_eq_some_iff.mp hids
    · exact absurd h (by simp)
  · rintro ⟨hsome, rfl⟩
    exact parse?_chars hsome

end Prerelease

namespace Semver

/-! ## What follows the numbers -/

/-- The pre-release and the build metadata as they are written after the numbers. -/
def suffixChars (pre : Prerelease) (build : List Identifier) : List Char :=
  (if pre.isNone then [] else '-' :: pre.chars) ++
    (if build.isEmpty then [] else '+' :: Identifier.joinDots build)

theorem chars_eq (v : Semver) : v.chars = digits v.major ++ '.' :: (digits v.minor ++
    '.' :: (digits v.patch ++ suffixChars v.pre v.build)) := by
  simp [chars, suffixChars]

/-- Reads the pre-release, given what stands before the build metadata. -/
def prerelease? : List Char → Option Prerelease
  | [] => some .none
  | '-' :: rest => Prerelease.parse? rest
  | _ => none

/-- Reads the build metadata, given what begins with the sign before it. -/
def build? : List Char → Option (List Identifier)
  | [] => some []
  | _ :: rest => Identifier.splitDots? rest

theorem parseSuffix?_eq (cs : List Char) : parseSuffix? cs =
    (prerelease? (cs.takeWhile (· != '+'))).bind fun pre =>
      (build? (cs.dropWhile (· != '+'))).map (pre, ·) :=
  rfl

theorem prerelease?_eq_some_iff {cs : List Char} {pre : Prerelease} :
    prerelease? cs = some pre ↔ cs = if pre.isNone then [] else '-' :: pre.chars := by
  unfold prerelease?
  split
  · by_cases hnone : pre.isNone = true
    · obtain ⟨ids, hcanonical⟩ := pre
      obtain rfl : ids = [] := by simpa [Prerelease.isNone] using hnone
      simp [Prerelease.none, Prerelease.isNone]
    · have hne : Prerelease.none ≠ pre := by
        rintro rfl
        exact hnone rfl
      simp [hnone, hne]
  · rw [Prerelease.parse?_eq_some_iff]
    cases hnone : pre.isNone <;> simp
  · next hnil hhyphen =>
    refine iff_of_false (by simp) ?_
    split
    · exact fun h => hnil h
    · exact fun h => hhyphen _ h

theorem build?_eq_some_iff {cs : List Char} (hplus : ∀ c ∈ cs.head?, c = '+')
    {build : List Identifier} :
    build? cs = some build ↔
      cs = if build.isEmpty then [] else '+' :: Identifier.joinDots build := by
  cases cs with
  | nil => cases build <;> simp [build?]
  | cons c rest =>
      obtain rfl : c = '+' := hplus c rfl
      rw [build?, Identifier.splitDots?_eq_some_iff]
      cases build <;> simp

/-- No plus sign stands in a pre-release. -/
theorem ne_plus_of_mem {pre : Prerelease} :
    ∀ c ∈ (if pre.isNone then [] else '-' :: pre.chars), (c != '+') = true := by
  intro c hc
  split at hc
  · exact absurd hc List.not_mem_nil
  · rcases List.mem_cons.mp hc with rfl | hc
    · rfl
    · have hsuffix := Identifier.isSuffixChar_of_mem_joinDots hc
      rw [bne_iff_ne]
      rintro rfl
      exact absurd hsuffix (by decide)

/-- What is read after the numbers is a pre-release and build metadata as they are written. -/
theorem parseSuffix?_eq_some_iff {cs : List Char} {pre : Prerelease} {build : List Identifier} :
    parseSuffix? cs = some (pre, build) ↔ cs = suffixChars pre build := by
  have hread : parseSuffix? cs = some (pre, build) ↔
      prerelease? (cs.takeWhile (· != '+')) = some pre ∧
        build? (cs.dropWhile (· != '+')) = some build := by
    rw [parseSuffix?_eq]
    simp [Option.bind_eq_some_iff]
  have hplus : ∀ c ∈ (cs.dropWhile (· != '+')).head?, c = '+' := by
    intro c hc
    have hnot := List.head?_dropWhile_not (· != '+') cs
    rw [hc] at hnot
    simpa using hnot
  rw [hread, prerelease?_eq_some_iff, build?_eq_some_iff hplus]
  constructor
  · rintro ⟨hpre, hbuild⟩
    rw [suffixChars, ← hpre, ← hbuild, List.takeWhile_append_dropWhile]
  · rintro rfl
    refine Text.takeWhile_dropWhile_append ne_plus_of_mem ?_
    split
    · simp
    · simp

/-! ## Versions -/

theorem isDigit_of_suffixChars {pre : Prerelease} {build : List Identifier} :
    ∀ c ∈ (suffixChars pre build).head?, c.isDigit = false := by
  intro c hc
  unfold suffixChars at hc
  by_cases hpre : pre.isNone = true
  · by_cases hbuild : build.isEmpty = true
    · simp [hpre, hbuild] at hc
    · obtain rfl : '+' = c := by simpa [hpre, hbuild] using hc
      rfl
  · obtain rfl : '-' = c := by simpa [hpre] using hc
    rfl

theorem isDigit_of_dot (rest : List Char) : ∀ c ∈ ('.' :: rest).head?, c.isDigit = false := by
  intro c hc
  obtain rfl : '.' = c := by simpa using hc
  rfl

/-- A version is read from its own text. -/
theorem parse?_chars (v : Semver) : parse? v.chars = some v := by
  have hsuffix : parseSuffix? (suffixChars v.pre v.build) = some (v.pre, v.build) :=
    parseSuffix?_eq_some_iff.mpr rfl
  rw [chars_eq]
  unfold parse?
  simp only [takeNumber?_digits _ (isDigit_of_dot _), takeNumber?_digits _ isDigit_of_suffixChars,
    hsuffix, Option.map_some]

/-- A version is read from no other text. -/
theorem parse?_eq_some_iff {cs : List Char} {v : Semver} : parse? cs = some v ↔ cs = v.chars := by
  constructor
  · intro h
    unfold parse? at h
    split at h
    · next major cs' hmajor =>
      split at h
      · next minor cs'' hminor =>
        split at h
        · next patch cs''' hpatch =>
          obtain ⟨⟨pre, build⟩, hsuffix, rfl⟩ := Option.map_eq_some_iff.mp h
          rw [chars_eq, (takeNumber?_eq_some_iff.mp hmajor).1,
            (takeNumber?_eq_some_iff.mp hminor).1, (takeNumber?_eq_some_iff.mp hpatch).1,
            parseSuffix?_eq_some_iff.mp hsuffix]
        · exact absurd h (by simp)
      · exact absurd h (by simp)
    · exact absurd h (by simp)
  · rintro rfl
    exact parse?_chars v

/-! ## Blanks -/

end Semver

/-- The code points of the characters of identifiers. -/
theorem isIdentifierChar_iff {c : Char} : isIdentifierChar c = true ↔
    (((65 ≤ c.toNat ∧ c.toNat ≤ 90) ∨ (97 ≤ c.toNat ∧ c.toNat ≤ 122)) ∨
      (48 ≤ c.toNat ∧ c.toNat ≤ 57)) ∨ c = '-' := by
  have hupper : c.isUpper = decide ('A'.val ≤ c.val ∧ c.val ≤ 'Z'.val) := rfl
  have hlower : c.isLower = (decide ('a'.val ≤ c.val) && decide (c.val ≤ 'z'.val)) := rfl
  have hdigit : c.isDigit = (decide ('0'.val ≤ c.val) && decide (c.val ≤ '9'.val)) := rfl
  show (((c.isUpper || c.isLower) || c.isDigit) || c == '-') = true ↔ _
  rw [hupper, hlower, hdigit]
  simp only [Bool.or_eq_true, Bool.and_eq_true, decide_eq_true_eq, UInt32.le_iff_toNat_le,
    beq_iff_eq]
  rfl

theorem isBlank_of_isIdentifierChar {c : Char} (h : isIdentifierChar c = true) :
    Text.isBlank c = false := by
  rcases isIdentifierChar_iff.mp h with h | rfl
  · simp only [Text.isBlank, Bool.or_eq_false_iff, Bool.and_eq_false_iff, decide_eq_false_iff_not,
      beq_eq_false_iff_ne]
    omega
  · decide

namespace Semver

theorem isBlank_of_isSuffixChar {c : Char} (h : Comparator.isSuffixChar c = true) :
    Text.isBlank c = false := by
  rcases Bool.or_eq_true_iff.mp h with hchar | hdot
  · exact isBlank_of_isIdentifierChar hchar
  · rw [beq_iff_eq.mp hdot]
    decide

theorem isBlank_of_mem_digits {n : UInt64} {c : Char} (h : c ∈ digits n) :
    Text.isBlank c = false := by
  have hdigit := isDigit_of_mem_digits h
  exact isBlank_of_isIdentifierChar (by simp [isIdentifierChar, Char.isAlphanum, hdigit])

/-- No blanks stand in the text of a version. -/
theorem isBlank_of_mem_chars {v : Semver} {c : Char} (h : c ∈ v.chars) :
    Text.isBlank c = false := by
  have hids : ∀ ids : List Identifier, c ∈ Identifier.joinDots ids → Text.isBlank c = false :=
    fun ids hc => isBlank_of_isSuffixChar (Identifier.isSuffixChar_of_mem_joinDots hc)
  simp only [chars_eq, suffixChars, List.mem_append, List.mem_cons] at h
  rcases h with hmajor | rfl | hminor | rfl | hpatch | hpre | hbuild
  · exact isBlank_of_mem_digits hmajor
  · decide
  · exact isBlank_of_mem_digits hminor
  · decide
  · exact isBlank_of_mem_digits hpatch
  · split at hpre
    · exact absurd hpre List.not_mem_nil
    · rcases List.mem_cons.mp hpre with rfl | hpre
      · decide
      · exact hids _ hpre
  · split at hbuild
    · exact absurd hbuild List.not_mem_nil
    · rcases List.mem_cons.mp hbuild with rfl | hbuild
      · decide
      · exact hids _ hbuild

end Semver

namespace Label

theorem eq_or_eq_cons_dropV (cs : List Char) : cs = dropV cs ∨ cs = 'v' :: dropV cs := by
  unfold dropV
  split
  · exact .inr rfl
  · exact .inl rfl

variable {label : String} {number : Semver}

/-- A complete version has no blanks at its ends. -/
theorem trimEnds_of_strictNumber? (h : strictNumber? label = some number) :
    Text.trimEnds Text.isBlank label.toList = label.toList := by
  have hchars : dropV label.toList = number.chars := Semver.parse?_eq_some_iff.mp h
  have hall : ∀ c ∈ label.toList, Text.isBlank c = false := by
    intro c hc
    rcases eq_or_eq_cons_dropV label.toList with hself | hv
    · rw [hself, hchars] at hc
      exact Semver.isBlank_of_mem_chars hc
    · rw [hv, hchars] at hc
      rcases List.mem_cons.mp hc with rfl | hc
      · decide
      · exact Semver.isBlank_of_mem_chars hc
  exact Text.trimEnds_eq_self (fun c hc => hall c (List.mem_of_head? hc))
    fun c hc => hall c (List.mem_of_getLast? hc)

/-- A complete version is read as the version that it is. -/
theorem number?_of_strictNumber? (h : strictNumber? label = some number) :
    number? label = some number := by
  unfold strictNumber? at h
  unfold number?
  rw [trimEnds_of_strictNumber? h]
  dsimp only
  rw [h, Option.some_or]

end Label

theorem Version.ofTag_of_strictNumber? {tag : String} {number : Semver}
    (h : Label.strictNumber? tag = some number) : ofTag tag = semver number tag := by
  unfold ofTag
  rw [Label.number?_of_strictNumber? h, h]
  rfl

end Relock
