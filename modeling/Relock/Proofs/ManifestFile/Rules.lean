import Relock.Proofs.Entries
import Relock.Proofs.ManifestFile

/-!
# What is read of a manifest file

A manifest file is read if no entry has both a version and a branch, every version is a range and no
root is named twice; otherwise the first entry that breaks a rule is reported
(`outcome_toManifest`). What is read asks of every root what its entry says, and ignores what the
file lists, in first-seen order (`Told`).
-/

namespace Relock.ManifestFile

/-! ## The rules -/

/-- An entry with at most one of a version and a branch, and a version that is a range. -/
structure Sound (e : ConstraintEntry) : Prop where
  one : e.version = none ∨ e.branch = none
  range : ∀ range, e.version = some range → Range.parse? range.toList ≠ none

/-- What is wrong with an entry. -/
inductive Flaw (e : ConstraintEntry) : Error → Prop
  | versionAndBranch : e.version ≠ none → e.branch ≠ none → Flaw e (.versionAndBranch e.name)
  | invalidRange {range : String} : e.version = some range → e.branch = none →
      Range.parse? range.toList = none → Flaw e (.invalidRange range e.name)

theorem sound_iff (e : ConstraintEntry) : Sound e ↔ ∀ error, ¬ Flaw e error := by
  constructor
  · rintro ⟨hone, hrange⟩ error (⟨hversion, hbranch⟩ | ⟨hversion, -, hnone⟩)
    · exact hone.elim hversion hbranch
    · exact hrange _ hversion hnone
  · intro h
    have hone : e.version = none ∨ e.branch = none := by
      by_contra hboth
      obtain ⟨hversion, hbranch⟩ := not_or.mp hboth
      exact h _ (.versionAndBranch hversion hbranch)
    refine ⟨hone, fun range hversion hnone => ?_⟩
    have hbranch : e.branch = none := hone.resolve_left (by simp [hversion])
    exact h _ (.invalidRange hversion hbranch hnone)

/-- The rules of a manifest file. -/
def rules : Rules ConstraintEntry Error where
  name := ConstraintEntry.name
  Sound := Sound
  Flaw := Flaw
  duplicate := .duplicate
  sound_iff := sound_iff

/-- What a manifest file tells, if it can be read. -/
structure Told (f : ManifestFile) (m : Manifest) : Prop where
  nodup : (m.constraints.entries.map (·.1)).Nodup
  asked : ∀ e ∈ f.constraints, ∃ constraint, constraint? e = .ok constraint ∧
    m.constraints.lookup? (.ofString e.name) = some ⟨constraint, e.source⟩
  /-- Nothing is asked of other roots. -/
  named : ∀ root properties, m.constraints.lookup? root = some properties →
    ∃ e ∈ f.constraints, root = .ofString e.name
  ignored : m.ignored = ((f.ignored.map Text.trim).filter (· ≠ "")).eraseDups

/-! ## One entry -/

theorem constraint?_eq_error_iff {e : ConstraintEntry} {error : Error} :
    constraint? e = .error error ↔ Flaw e error := by
  constructor
  · intro h
    unfold constraint? at h
    split at h
    · next hversion hbranch =>
      cases h
      exact .versionAndBranch (by simp [hversion]) (by simp [hbranch])
    · next range hversion hbranch =>
      split at h
      · exact absurd h (by simp)
      · next hnone =>
        cases h
        exact .invalidRange hversion hbranch hnone
    · exact absurd h (by simp)
    · exact absurd h (by simp)
  · rintro (⟨hversion, hbranch⟩ | ⟨hversion, hbranch, hnone⟩)
    · obtain ⟨range, hversion⟩ := Option.ne_none_iff_exists'.mp hversion
      obtain ⟨branch, hbranch⟩ := Option.ne_none_iff_exists'.mp hbranch
      simp [constraint?, hversion, hbranch]
    · simp [constraint?, hversion, hbranch, hnone]

/-- Asks of the root of an entry what it says. -/
def add? (m : Manifest) (e : ConstraintEntry) (constraint : Option Constraint) :
    Option Manifest :=
  m.addConstraint? (.ofString e.name) ⟨constraint, e.source⟩

theorem addEntry_eq_step : addEntry = rules.step constraint? add? := by
  funext m e
  unfold addEntry
  cases hcheck : constraint? e with
  | error error =>
      rw [Rules.step_of_error hcheck]
      rfl
  | ok constraint =>
      dsimp only [bind, Except.bind]
      cases hadd : add? m e constraint with
      | none =>
          rw [Rules.step_of_none hcheck hadd, show m.addConstraint? _ _ = none from hadd]
          rfl
      | some m' =>
          rw [Rules.step_of_some hcheck hadd, show m.addConstraint? _ _ = some m' from hadd]
          rfl

theorem add?_eq_none_iff {m : Manifest} {e : ConstraintEntry} {constraint : Option Constraint} :
    add? m e constraint = none ↔ m.constraints.lookup? (.ofString e.name) ≠ none := by
  unfold add? Manifest.addConstraint? SortedMap.insertNew?
  cases m.constraints.lookup? (.ofString e.name) <;> simp

theorem add?_eq_some_iff {m m' : Manifest} {e : ConstraintEntry} {constraint : Option Constraint} :
    add? m e constraint = some m' ↔ m.constraints.lookup? (.ofString e.name) = none ∧
      { m with constraints :=
        m.constraints.insert (.ofString e.name) ⟨constraint, e.source⟩ } = m' := by
  unfold add? Manifest.addConstraint? SortedMap.insertNew?
  cases m.constraints.lookup? (.ofString e.name) <;> simp

/-- Every entry is told once it is read, and all before it still are. -/
theorem governs : rules.Governs constraint? add? fun entries => Told ⟨[], entries⟩ where
  check_eq_error_iff := constraint?_eq_error_iff
  add?_eq_none_iff := by
    intro front m e constraint htold _
    rw [add?_eq_none_iff]
    constructor
    · intro hsome
      obtain ⟨properties, hproperties⟩ := Option.ne_none_iff_exists'.mp hsome
      obtain ⟨other, hother, hroot⟩ := htold.named _ _ hproperties
      exact ⟨other, hother, ProjectRoot.ofString_inj.mp hroot.symm⟩
    · rintro ⟨other, hother, hname⟩
      obtain ⟨asked, -, hlookup⟩ := htold.asked other hother
      have hroot : ProjectRoot.ofString other.name = .ofString e.name :=
        ProjectRoot.ofString_inj.mpr hname
      simp [← hroot, hlookup]
  reads := by
    intro front m m' e constraint htold hcheck hadd
    -- the root is new, so the entries before keep what they ask
    obtain ⟨hnone, rfl⟩ := add?_eq_some_iff.mp hadd
    refine ⟨SortedMap.nodup_keys _, fun other hother => ?_, fun root properties hroot => ?_,
      htold.ignored⟩
    · rcases List.mem_append.mp hother with hother | hother
      · obtain ⟨asked, hasked, hlookup⟩ := htold.asked other hother
        have hne : ProjectRoot.ofString other.name ≠ .ofString e.name := by
          intro heq
          rw [heq, hnone] at hlookup
          exact absurd hlookup (by simp)
        exact ⟨asked, hasked, by rw [SortedMap.lookup?_insert_of_ne _ hne, hlookup]⟩
      · obtain rfl := List.mem_singleton.mp hother
        exact ⟨constraint, hcheck, SortedMap.lookup?_insert_self _ _ _⟩
    · by_cases heq : root = .ofString e.name
      · exact ⟨e, by simp, heq⟩
      · rw [SortedMap.lookup?_insert_of_ne _ heq] at hroot
        obtain ⟨other, hother, hname⟩ := htold.named root properties hroot
        exact ⟨other, by simp [hother], hname⟩

/-! ## All entries -/

theorem toManifest_eq (f : ManifestFile) : f.toManifest =
    (f.constraints.foldlM addEntry .empty).map fun m => m.ignoreAll f.ignored := by
  unfold toManifest
  cases f.constraints.foldlM addEntry .empty <;> rfl

/-- A manifest file is read if it keeps to the rules, and the first entry that breaks one is
reported. -/
theorem outcome_toManifest (f : ManifestFile) :
    rules.Outcome f.constraints f.toManifest (Told f) := by
  have hempty : Told ⟨[], []⟩ Manifest.empty :=
    ⟨List.nodup_nil, by simp, by simp [Manifest.empty, SortedMap.lookup?, SortedMap.empty], rfl⟩
  rw [toManifest_eq, addEntry_eq_step]
  refine (governs.outcome hempty f.constraints).map fun m htold => ?_
  have hconstraints := Manifest.constraints_ignoreAll m f.ignored
  refine ⟨SortedMap.nodup_keys _, ?_, ?_, Manifest.ignored_ignoreAll htold.ignored f.ignored⟩
  · rw [hconstraints]
    exact htold.asked
  · rw [hconstraints]
    exact htold.named

end Relock.ManifestFile
