import Relock.Proofs.Root.Containment
import Relock.Version.Label

/-!
# Labels with missing numbers

A label of one or two numbers stands for the label with the missing ones filled in (`completed`),
and both should be read alike. They are, but for one thing: complete versions take a number only as
it is written plainly, and a short label also with a sign in front of it or with zeros that it does
not need.

* **numbers** (`takeNumber?_append_dot`): where a complete version is read, a number before a dot is
  what a short label has for it, if it is plain (`plain?`).
* **versions** (`parse?_append_dot`, `afterMajor?_append_dot`): a complete version is read number by
  number, and where a dot is missing there is none (`parse?_of_not_mem`, `afterMajor?_of_not_mem`).
* **labels** (`number?_completed_eq`): the completed label is read as the short one is, unless a
  number in it is not plain; then it is no version at all.
-/

namespace Relock.Label

/-! ## Numbers -/

/-- Whether a number is written with a sign, or with a zero that it does not need. -/
def isPadded : List Char → Bool
  | '+' :: _ => true
  | '0' :: _ :: _ => true
  | _ => false

/-- Reads a number that is written plainly. -/
def plain? (cs : List Char) : Option UInt64 :=
  if isPadded cs then none else component? cs

/-- Without a sign a number is nothing but digits. -/
theorem component?_of_not_plus {cs : List Char} (h : cs.head? ≠ some '+') :
    component? cs =
      if !cs.isEmpty && cs.all Char.isDigit then Semver.number? cs else none := by
  unfold component?
  split
  · exact absurd rfl h
  · rfl

theorem head?_ne_plus_of_isPadded {cs : List Char} (h : isPadded cs = false) :
    cs.head? ≠ some '+' := by
  intro hplus
  obtain ⟨rest, rfl⟩ := List.head?_eq_some_iff.mp hplus
  exact absurd h (by simp [isPadded])

/-- What is not made of digits is no plain number. -/
theorem plain?_eq_none {cs : List Char} (h : ¬ (cs ≠ [] ∧ ∀ c ∈ cs, c.isDigit = true)) :
    plain? cs = none := by
  unfold plain?
  split
  · rfl
  · next hpadded =>
    rw [component?_of_not_plus (head?_ne_plus_of_isPadded (by simpa using hpadded)), if_neg]
    simpa using h

/-- Digits are a plain number unless they begin with a zero that they do not need. -/
theorem plain?_of_digits {cs : List Char} (hne : cs ≠ []) (hdigits : ∀ c ∈ cs, c.isDigit = true) :
    plain? cs = if isPadded cs then none else Semver.number? cs := by
  have hplus : cs.head? ≠ some '+' := by
    intro hplus
    obtain ⟨rest, rfl⟩ := List.head?_eq_some_iff.mp hplus
    exact absurd (hdigits '+' List.mem_cons_self) (by decide)
  have hchecked : (!cs.isEmpty && cs.all Char.isDigit) = true := by simpa using ⟨hne, hdigits⟩
  rw [plain?, component?_of_not_plus hplus, if_pos hchecked]

/-- A complete version takes all digits there are, and one at least. -/
theorem of_takeNumber? {cs rest : List Char} {n : UInt64}
    (h : Semver.takeNumber? cs = some (n, rest)) :
    cs.takeWhile Char.isDigit ≠ [] ∧ cs.dropWhile Char.isDigit = rest := by
  unfold Semver.takeNumber? at h
  split at h
  · exact absurd h (by simp)
  · exact absurd h (by simp)
  · next hne _ =>
    obtain ⟨m, -, hm⟩ := Option.map_eq_some_iff.mp h
    exact ⟨hne, (Prod.mk.inj hm).2⟩

/-- Before a dot a complete version has a plain number, and what comes behind the dot is left. -/
theorem takeNumber?_append_dot {part : List Char} (hdot : '.' ∉ part) {rest cs : List Char}
    {n : UInt64} : Semver.takeNumber? (part ++ '.' :: rest) = some (n, '.' :: cs) ↔
      plain? part = some n ∧ rest = cs := by
  by_cases hall : ∀ c ∈ part, c.isDigit = true
  · by_cases hne : part = []
    · subst hne
      refine iff_of_false (fun h => (of_takeNumber? h).1 (by simp)) ?_
      simp [plain?, isPadded, component?]
    obtain ⟨htake, hdrop⟩ := @Text.takeWhile_dropWhile_append Char.isDigit part ('.' :: rest) hall
      (by simp)
    unfold Semver.takeNumber?
    rw [htake, hdrop, plain?_of_digits hne hall]
    split
    · exact absurd rfl hne
    · simp [isPadded]
    · next hzero =>
      have hpadded : isPadded part = false := by
        unfold isPadded
        split
        · exact absurd (hall '+' List.mem_cons_self) (by decide)
        · exact absurd rfl (hzero _ _)
        · rfl
      simp [hpadded]
  · rw [plain?_eq_none fun h => hall h.2]
    refine iff_of_false (fun h => ?_) (by simp)
    -- the digits end at a character of the part, which is not the dot
    have hdrop := (of_takeNumber? h).2
    rw [List.dropWhile_append] at hdrop
    split at hdrop
    · next hempty =>
      apply hall
      simpa using hempty
    · cases hpart : part.dropWhile Char.isDigit with
      | nil => next hempty => exact hempty (by simp [hpart])
      | cons c more =>
          rw [hpart, List.cons_append] at hdrop
          have hmem : c ∈ part := (List.dropWhile_sublist _).subset (hpart ▸ List.mem_cons_self)
          exact hdot ((List.cons.inj hdrop).1 ▸ hmem)

theorem takeNumber?_ne_of_not_mem {cs rest : List Char} (hdot : '.' ∉ cs) {n : UInt64} :
    Semver.takeNumber? cs ≠ some (n, '.' :: rest) := by
  intro h
  apply hdot
  apply (List.dropWhile_sublist Char.isDigit).subset
  rw [(of_takeNumber? h).2]
  exact List.mem_cons_self

/-! ## Versions -/

/-- Reads what follows the second number of a complete version and its dot. -/
def afterMinor? (major minor : UInt64) (cs : List Char) : Option Semver :=
  match Semver.takeNumber? cs with
  | some (patch, cs) =>
    (Semver.parseSuffix? cs).map fun (pre, build) => ⟨major, minor, patch, pre, build⟩
  | none => none

/-- Reads what follows the first number of a complete version and its dot. -/
def afterMajor? (major : UInt64) (cs : List Char) : Option Semver :=
  match Semver.takeNumber? cs with
  | some (minor, '.' :: cs) => afterMinor? major minor cs
  | _ => none

theorem parse?_eq (cs : List Char) : Semver.parse? cs =
    match Semver.takeNumber? cs with
    | some (major, '.' :: cs) => afterMajor? major cs
    | _ => none :=
  rfl

theorem parse?_append_dot {major : List Char} (hdot : '.' ∉ major) (rest : List Char) :
    Semver.parse? (major ++ '.' :: rest) = (plain? major).bind (afterMajor? · rest) := by
  rw [parse?_eq]
  split
  · next n cs hread =>
    obtain ⟨hplain, rfl⟩ := (takeNumber?_append_dot hdot).mp hread
    rw [hplain, Option.bind_some]
  · next hno =>
    cases hplain : plain? major with
    | none => rfl
    | some n => exact absurd ((takeNumber?_append_dot hdot).mpr ⟨hplain, rfl⟩) (hno n rest)

theorem afterMajor?_append_dot (major : UInt64) {minor : List Char} (hdot : '.' ∉ minor)
    (rest : List Char) :
    afterMajor? major (minor ++ '.' :: rest) = (plain? minor).bind (afterMinor? major · rest) := by
  unfold afterMajor?
  split
  · next n cs hread =>
    obtain ⟨hplain, rfl⟩ := (takeNumber?_append_dot hdot).mp hread
    rw [hplain, Option.bind_some]
  · next hno =>
    cases hplain : plain? minor with
    | none => rfl
    | some n => exact absurd ((takeNumber?_append_dot hdot).mpr ⟨hplain, rfl⟩) (hno n rest)

theorem afterMajor?_of_not_mem (major : UInt64) {cs : List Char} (hdot : '.' ∉ cs) :
    afterMajor? major cs = none := by
  unfold afterMajor?
  split
  · next hread => exact absurd hread (takeNumber?_ne_of_not_mem hdot)
  · rfl

theorem parse?_of_not_mem {cs : List Char} (hdot : '.' ∉ cs) : Semver.parse? cs = none := by
  rw [parse?_eq]
  split
  · next hread => exact absurd hread (takeNumber?_ne_of_not_mem hdot)
  · rfl

/-! ## Labels -/

/-- The label with the missing numbers filled in. -/
def completed (label : String) : String :=
  match label.toList.splitOn '.' with
  | [_] => label ++ ".0.0"
  | [_, _] => label ++ ".0"
  | _ => label

/-- One component has no dot, and two have one between them. -/
theorem short_cases {cs : List Char} (h : (cs.splitOn '.').length ≤ 2) :
    '.' ∉ cs ∨ ∃ major minor, cs = major ++ '.' :: minor ∧ '.' ∉ major ∧ '.' ∉ minor := by
  by_cases hdot : '.' ∈ cs
  · obtain ⟨major, minor, rfl, hmajor⟩ := List.eq_append_cons_of_mem hdot
    refine .inr ⟨major, minor, rfl, hmajor, ?_⟩
    intro hminor
    obtain ⟨second, third, rfl, -⟩ := List.eq_append_cons_of_mem hminor
    rw [List.splitOn_append_cons_self, List.splitOn_append_cons_self, List.length_append,
      List.length_append] at h
    have hfirst := List.length_pos_iff.mpr (List.splitOn_ne_nil '.' major)
    have hsecond := List.length_pos_iff.mpr (List.splitOn_ne_nil '.' second)
    have hthird := List.length_pos_iff.mpr (List.splitOn_ne_nil '.' third)
    omega
  · exact .inl hdot

theorem dropV_append_cons {c : Char} (hc : c ≠ 'v') (front rest : List Char) :
    dropV (front ++ c :: rest) = dropV front ++ c :: rest := by
  cases front with
  | nil => simp [dropV, hc]
  | cons first front =>
      by_cases hv : first = 'v'
      · simp [dropV, hv]
      · simp [dropV, hv]

theorem dropV_append_dot (front rest : List Char) :
    dropV (front ++ '.' :: rest) = dropV front ++ '.' :: rest :=
  dropV_append_cons (by decide) front rest

theorem not_mem_dropV {cs : List Char} {c : Char} (h : c ∉ cs) : c ∉ dropV cs := by
  unfold dropV
  split
  · exact fun hmem => h (List.mem_cons_of_mem _ hmem)
  · exact h

theorem number?_of_trim {label : String}
    (htrim : Text.trimEnds Text.isBlank label.toList = label.toList) :
    number? label = (Semver.parse? (dropV label.toList)).or (short? (dropV label.toList)) := by
  rw [number?, htrim]

/-- Zeros at the end keep a label free of blanks around it. -/
theorem trimEnds_append_zero {front : List Char}
    (h : Text.trimEnds Text.isBlank front = front) :
    Text.trimEnds Text.isBlank (front ++ ['.', '0']) = front ++ ['.', '0'] := by
  apply Text.trimEnds_eq_self
  · cases front with
    | nil => simp; decide
    | cons c front => simpa using Text.head?_trimEnds (by rw [h]; rfl)
  · simp
    decide

/-- Three components are no short label. -/
theorem short?_of_three {first second : List Char} (hfirst : '.' ∉ first) (hsecond : '.' ∉ second)
    (third : List Char) : short? (first ++ '.' :: (second ++ '.' :: third)) = none := by
  unfold short?
  rw [List.splitOn_append_cons_self_of_not_mem hfirst,
    List.splitOn_append_cons_self_of_not_mem hsecond]
  cases hthird : third.splitOn '.' with
  | nil => exact absurd hthird (List.splitOn_ne_nil '.' third)
  | cons => rfl

theorem parse?_append_zeros {major : List Char} (hdot : '.' ∉ major) :
    Semver.parse? (major ++ ['.', '0', '.', '0']) =
      if isPadded major then none else (component? major).map (Semver.release · 0 0) := by
  have hzeros : ∀ n, afterMajor? n ['0', '.', '0'] = some (Semver.release n 0 0) := fun _ => rfl
  rw [parse?_append_dot hdot, plain?]
  split
  · rfl
  · cases component? major with
    | none => rfl
    | some n => exact hzeros n

theorem parse?_append_zero {major minor : List Char} (hmajor : '.' ∉ major) (hminor : '.' ∉ minor) :
    Semver.parse? (major ++ '.' :: (minor ++ ['.', '0'])) =
      if isPadded major || isPadded minor then none
      else (do return Semver.release (← component? major) (← component? minor) 0) := by
  have hzero : ∀ n m, afterMinor? n m ['0'] = some (Semver.release n m 0) := fun _ _ => rfl
  rw [parse?_append_dot hmajor]
  simp only [afterMajor?_append_dot _ hminor, hzero, plain?]
  cases isPadded major <;> cases isPadded minor <;> cases component? major <;> rfl

/-- One number is read with and without the zeros if it is plain. -/
theorem read_append_zeros {major : List Char} (hdot : '.' ∉ major) :
    (Semver.parse? (major ++ ['.', '0', '.', '0'])).or (short? (major ++ ['.', '0', '.', '0'])) =
      if isPadded major then none else (Semver.parse? major).or (short? major) := by
  have hzero : '.' ∉ ['0'] := by simp
  have hthree : short? (major ++ ['.', '0', '.', '0']) = none := short?_of_three hdot hzero ['0']
  rw [hthree, Option.or_none, parse?_append_zeros hdot, parse?_of_not_mem hdot, Option.none_or,
    short?, List.splitOn_eq_singleton hdot]

/-- Two numbers are read with and without the zero if both are plain. -/
theorem read_append_zero {major minor : List Char} (hmajor : '.' ∉ major) (hminor : '.' ∉ minor) :
    (Semver.parse? (major ++ '.' :: (minor ++ ['.', '0']))).or
        (short? (major ++ '.' :: (minor ++ ['.', '0']))) =
      if isPadded major || isPadded minor then none
      else (Semver.parse? (major ++ '.' :: minor)).or (short? (major ++ '.' :: minor)) := by
  have hshort : Semver.parse? (major ++ '.' :: minor) = none := by
    rw [parse?_append_dot hmajor]
    cases plain? major with
    | none => rfl
    | some n => exact afterMajor?_of_not_mem n hminor
  rw [short?_of_three hmajor hminor ['0'], Option.or_none, parse?_append_zero hmajor hminor, hshort,
    Option.none_or, short?, List.splitOn_append_cons_self_of_not_mem hmajor,
    List.splitOn_eq_singleton hminor]

/-- A label of one or two numbers is read as the completed label is, unless a number in it has a
sign or a zero that it does not need: then the completed label is not a version. -/
theorem number?_completed_eq {label : String} (htrim : Text.trim label = label)
    (hshort : (label.toList.splitOn '.').length ≤ 2) :
    number? (completed label) =
      if ((dropV label.toList).splitOn '.').any isPadded then none else number? label := by
  have hself : Text.trimEnds Text.isBlank label.toList = label.toList := by
    simpa [Text.trim] using congrArg String.toList htrim
  rw [number?_of_trim hself]
  -- a label of one component lacks two zeros, and one of two components lacks one
  rcases short_cases hshort with hdot | ⟨major, minor, hchars, hmajor, hminor⟩
  · have hcompleted : (completed label).toList = label.toList ++ ['.', '0'] ++ ['.', '0'] := by
      simp [completed, List.splitOn_eq_singleton hdot]
    have hown := not_mem_dropV hdot
    rw [number?_of_trim (hcompleted ▸ trimEnds_append_zero (trimEnds_append_zero hself)),
      hcompleted, List.append_assoc, List.cons_append, dropV_append_dot,
      List.splitOn_eq_singleton hown]
    simpa using read_append_zeros hown
  · have hcompleted : (completed label).toList = label.toList ++ ['.', '0'] := by
      simp [completed, hchars, List.splitOn_append_cons_self_of_not_mem hmajor,
        List.splitOn_eq_singleton hminor]
    have hown := not_mem_dropV hmajor
    rw [number?_of_trim (hcompleted ▸ trimEnds_append_zero hself), hcompleted, hchars,
      List.append_assoc, List.cons_append, dropV_append_dot, dropV_append_dot,
      List.splitOn_append_cons_self_of_not_mem hown, List.splitOn_eq_singleton hminor]
    simpa using read_append_zero hown hminor

/-- A zero in front of a number, or a sign, is taken where the patch number is missing only. -/
theorem number?_completed_ne :
    (number? "1.02" = some (.release 1 2 0) ∧ number? (completed "1.02") = none) ∧
      number? "+1" = some (.release 1 0 0) ∧ number? (completed "+1") = none := by
  decide +kernel

theorem number?_completed_eq_twoNumbers :
    Text.trim "v1.20" = "v1.20" ∧ ("v1.20".toList.splitOn '.').length ≤ 2 ∧
      number? "v1.20" = some (.release 1 20 0) ∧ number? "v1.20.0" = number? "v1.20" ∧
      number? "v1.020" = some (.release 1 20 0) ∧ number? "v1.020.0" = none := by
  have htrim : Text.trim "v1.20" = "v1.20" := by decide +kernel
  have hshort : ("v1.20".toList.splitOn '.').length ≤ 2 := by decide +kernel
  have hplain := number?_completed_eq htrim hshort
  have hpadded : number? (completed "v1.020") = _ :=
    number?_completed_eq (by decide +kernel) (by decide +kernel)
  refine ⟨htrim, hshort, by decide +kernel, ?_, by decide +kernel, ?_⟩
  · rw [show completed "v1.20" = "v1.20.0" by decide +kernel] at hplain
    exact hplain
  · rw [show completed "v1.020" = "v1.020.0" by decide +kernel] at hpadded
    exact hpadded

end Relock.Label
