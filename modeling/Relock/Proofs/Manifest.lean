import Relock.Convert.Conversion
import Relock.Proofs.SortedMap

/-!
# What a manifest asks, root by root

Asking something of a root of which nothing is asked yet changes what is asked of that root alone
(`lookup?_ask_of_ne`), and ignoring packages changes nothing of what is asked
(`constraints_ignoreAll`). What is ignored are the entries without blanks at their ends
(`mem_ignoreAll`).
-/

namespace Relock

namespace ProjectRoot

/-- Two roots with the same text are the same. -/
instance : Std.LawfulEqOrd ProjectRoot where
  compare_self {root} := Std.ReflOrd.compare_self
  eq_of_compare {a b} h := by
    have htext : a.text = b.text := Std.LawfulEqOrd.eq_of_compare h
    cases a
    cases b
    simpa using htext

end ProjectRoot

namespace Manifest

/-- Ignores packages one by one, but for those that are ignored already. -/
def ignoreAll (m : Manifest) (packages : List String) : Manifest :=
  packages.foldl (fun m package => (m.ignore? package).getD m) m

theorem ignoreAll_cons (m : Manifest) (package : String) (packages : List String) :
    m.ignoreAll (package :: packages) = ((m.ignore? package).getD m).ignoreAll packages :=
  rfl

theorem constraints_ignore? {m m' : Manifest} {package : String}
    (h : m.ignore? package = some m') : m'.constraints = m.constraints := by
  simp only [ignore?] at h
  split at h
  · exact absurd h (by simp)
  · cases h
    rfl

/-- Ignoring packages asks nothing. -/
@[simp] theorem constraints_ignoreAll (m : Manifest) (packages : List String) :
    (m.ignoreAll packages).constraints = m.constraints := by
  induction packages generalizing m with
  | nil => rfl
  | cons package packages ih =>
      rw [ignoreAll_cons, ih]
      cases h : m.ignore? package with
      | none => rfl
      | some m' => exact constraints_ignore? h

/-- What is ignored in the end depends only on what was ignored before. -/
theorem ignored_ignoreAll_congr {m m' : Manifest} (h : m.ignored = m'.ignored)
    (packages : List String) :
    (m.ignoreAll packages).ignored = (m'.ignoreAll packages).ignored := by
  induction packages generalizing m m' with
  | nil => exact h
  | cons package packages ih =>
      rw [ignoreAll_cons, ignoreAll_cons]
      refine ih ?_
      simp only [ignore?, h]
      split
      · exact h
      · rfl

/-- A package is ignored in the end if it was ignored before or is an entry without the blanks at its
ends, which must not be blank. -/
theorem mem_ignoreAll {m : Manifest} {packages : List String} {package : String} :
    package ∈ (m.ignoreAll packages).ignored ↔
      package ∈ m.ignored ∨ package ≠ "" ∧ ∃ entry ∈ packages, Text.trim entry = package := by
  induction packages generalizing m with
  | nil => simp [ignoreAll]
  | cons entry packages ih =>
      have hstep : package ∈ ((m.ignore? entry).getD m).ignored ↔
          package ∈ m.ignored ∨ package ≠ "" ∧ Text.trim entry = package := by
        simp only [ignore?, Bool.or_eq_true, String.isEmpty_iff, List.contains_iff_mem]
        split
        · next hold =>
          -- the entry is blank, or ignored already
          rw [Option.getD_none]
          refine ⟨.inl, ?_⟩
          rintro (hmem | ⟨hne, rfl⟩)
          · exact hmem
          · exact hold.resolve_left hne
        · next hnew =>
          obtain ⟨hne, -⟩ := not_or.mp hnew
          rw [Option.getD_some, List.mem_append, List.mem_singleton]
          refine ⟨Or.imp_right ?_, Or.imp_right ?_⟩
          · rintro rfl
            exact ⟨hne, rfl⟩
          · rintro ⟨-, rfl⟩
            rfl
      rw [ignoreAll_cons, ih, hstep, or_assoc, ← and_or_left]
      simp only [List.mem_cons, exists_eq_or_imp]

end Manifest

namespace Conversion

/-- Something is asked of a root if there is a constraint or a source. -/
theorem properties?_eq_some_iff {record : ImportRecord} {resolution : Resolution}
    {asked : ProjectProperties} : properties? record resolution = some asked ↔
      (resolution.constraint ≠ none ∨ record.source ≠ none) ∧
        asked = ⟨resolution.constraint, record.source⟩ := by
  have hsome : (resolution.constraint.isSome || record.source.isSome) = true ↔
      resolution.constraint ≠ none ∨ record.source ≠ none := by
    rw [Bool.or_eq_true, Option.isSome_iff_ne_none, Option.isSome_iff_ne_none]
  unfold properties?
  split
  · next hasked => rw [and_iff_right (hsome.mp hasked), Option.some_inj, eq_comm]
  · next hnone => simp [mt hsome.mpr hnone]

/-- What is asked of a root for the first time is what is asked of it from then on. -/
theorem lookup?_ask_self {m : Manifest} {root : ProjectRoot}
    (h : m.constraints.lookup? root = none) (properties? : Option ProjectProperties) :
    (ask root properties? m).constraints.lookup? root = properties? := by
  cases properties? with
  | none => simpa [ask] using h
  | some properties => simp [ask, Manifest.addConstraint?, SortedMap.insertNew?, h]

/-- Nothing else is asked of other roots. -/
theorem lookup?_ask_of_ne {root other : ProjectRoot} (h : other ≠ root) (m : Manifest)
    (properties? : Option ProjectProperties) :
    (ask root properties? m).constraints.lookup? other = m.constraints.lookup? other := by
  cases properties? with
  | none => rfl
  | some properties =>
      simp only [ask, Manifest.addConstraint?, SortedMap.insertNew?, Option.bind_some]
      split
      · rfl
      · exact SortedMap.lookup?_insert_of_ne _ h _

@[simp] theorem ignored_ask (root : ProjectRoot) (properties? : Option ProjectProperties)
    (m : Manifest) : (ask root properties? m).ignored = m.ignored := by
  cases properties? with
  | none => rfl
  | some properties =>
      simp only [ask, Manifest.addConstraint?, SortedMap.insertNew?, Option.bind_some]
      split <;> rfl

end Conversion

end Relock
