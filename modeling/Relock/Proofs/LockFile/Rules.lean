import Mathlib.Data.List.Forall2
import Relock.Proofs.LockFile
import Relock.Proofs.ManifestFile.Rules

/-!
# What is read of a lock file

A lock file is read if no entry has both a version and a branch, every entry has one of them or a
revision that is not empty, and no root is named twice; otherwise the first entry that breaks a rule
is reported (`outcome_toLock`). What is read has a project for each entry, in the order of the file
(`Told`, `Says`).

So of both generated files exactly those are read that keep to their rules (`outcome_of_files`).
-/

namespace Relock

namespace LockFile

/-! ## The rules -/

/-- An entry with at most one of a version and a branch, and with one of them or the text of a
revision. -/
structure Sound (e : LockedEntry) : Prop where
  one : e.version = none ∨ e.branch = none
  known : e.version ≠ none ∨ e.branch ≠ none ∨ ∃ text, e.revision = some text ∧ text ≠ ""

/-- What is wrong with an entry. -/
inductive Flaw (e : LockedEntry) : Error → Prop
  | versionAndBranch : e.version ≠ none → e.branch ≠ none → Flaw e (.versionAndBranch e.name)
  | unversioned : e.version = none → e.branch = none →
      (∀ text, e.revision = some text → text = "") → Flaw e (.unversioned e.name)

theorem sound_iff (e : LockedEntry) : Sound e ↔ ∀ error, ¬ Flaw e error := by
  constructor
  · rintro ⟨hone, hknown⟩ error (⟨hversion, hbranch⟩ | ⟨hversion, hbranch, hempty⟩)
    · exact hone.elim hversion hbranch
    · rcases hknown with h | h | ⟨text, htext, hne⟩
      · exact h hversion
      · exact h hbranch
      · exact hne (hempty text htext)
  · intro h
    refine ⟨?_, ?_⟩
    · by_contra hboth
      obtain ⟨hversion, hbranch⟩ := not_or.mp hboth
      exact h _ (.versionAndBranch hversion hbranch)
    · by_contra hnone
      simp only [not_or, not_not, not_exists, not_and] at hnone
      exact h _ (.unversioned hnone.1 hnone.2.1 hnone.2.2)

/-- The rules of a lock file. -/
def rules : Rules LockedEntry Error where
  name := LockedEntry.name
  Sound := Sound
  Flaw := Flaw
  duplicate := .duplicate
  sound_iff := sound_iff

def labelOf? (e : LockedEntry) : Option Version :=
  (e.version.map Version.ofTag).or (e.branch.map (Version.branch · false))

/-- The revision that an entry names, unless it is empty. -/
def revisionOf? (e : LockedEntry) : Option Revision :=
  (e.revision.filter (· ≠ "")).map Revision.mk

/-- What an entry says of its root. -/
structure Says (e : LockedEntry) (p : LockedProject) : Prop where
  root : p.root = .ofString e.name
  source : p.source = e.source
  version : p.version.version? = labelOf? e
  revision : p.version.revision? = revisionOf? e
  packages : p.packages = e.packages.eraseDups

/-- What a lock file tells, if it can be read. -/
structure Told (f : LockFile) (l : Lock) : Prop where
  nodup : (l.projects.map (·.root)).Nodup
  projects : List.Forall₂ Says f.projects l.projects
  inputsDigest : l.inputsDigest = f.inputsDigest

/-! ## The version of an entry -/

theorem label?_eq_error_iff {e : LockedEntry} {error : Error} : label? e = .error error ↔
    (e.version ≠ none ∧ e.branch ≠ none) ∧ error = .versionAndBranch e.name := by
  unfold label?
  cases e.version <;> cases e.branch <;> simp [eq_comm]

theorem label?_eq_ok_iff {e : LockedEntry} {label : Option Version} : label? e = .ok label ↔
    (e.version = none ∨ e.branch = none) ∧ label = labelOf? e := by
  unfold label? labelOf?
  cases e.version <;> cases e.branch <;> simp [eq_comm]

theorem labelOf?_eq_none_iff {e : LockedEntry} :
    labelOf? e = none ↔ e.version = none ∧ e.branch = none := by
  simp [labelOf?]

theorem revisionOf?_eq_none_iff {e : LockedEntry} :
    revisionOf? e = none ↔ ∀ text, e.revision = some text → text = "" := by
  simp [revisionOf?, Option.filter_eq_none_iff]

/-- What is known of a version by its label and its revision. -/
def known? : Option Version → Option Revision → Option LockedVersion
  | some label, some revision => some (.paired ⟨label, revision⟩)
  | some label, none => some (.unpaired label)
  | none, some revision => some (.bare revision)
  | none, none => none

theorem known?_eq_none_iff {label : Option Version} {revision : Option Revision} :
    known? label revision = none ↔ label = none ∧ revision = none := by
  cases label <;> cases revision <;> simp [known?]

theorem known?_eq_some {label : Option Version} {revision : Option Revision} {v : LockedVersion}
    (h : known? label revision = some v) : v.version? = label ∧ v.revision? = revision := by
  cases label <;> cases revision <;> simp [known?] at h <;> subst h <;> exact ⟨rfl, rfl⟩

/-- Without two labels, what is known of an entry is its version. -/
theorem lockedVersion_of_one {e : LockedEntry} (h : e.version = none ∨ e.branch = none) :
    lockedVersion e =
      (known? (labelOf? e) (revisionOf? e)).elim (.error (.unversioned e.name)) .ok := by
  have hrevision : (e.revision.filter fun text => !text.isEmpty).map Revision.mk =
      revisionOf? e := by
    unfold revisionOf?
    cases e.revision <;> simp [Option.filter]
  unfold lockedVersion
  rw [label?_eq_ok_iff.mpr ⟨h, rfl⟩, hrevision]
  cases labelOf? e <;> cases revisionOf? e <;> rfl

theorem lockedVersion_of_both {e : LockedEntry} (h : e.version ≠ none ∧ e.branch ≠ none) :
    lockedVersion e = .error (.versionAndBranch e.name) := by
  unfold lockedVersion
  rw [label?_eq_error_iff.mpr ⟨h, rfl⟩]
  rfl

theorem lockedVersion_eq_error_iff {e : LockedEntry} {error : Error} :
    lockedVersion e = .error error ↔ Flaw e error := by
  -- a version and a branch together are refused whatever the revision is
  by_cases hone : e.version = none ∨ e.branch = none
  · rw [lockedVersion_of_one hone]
    cases hknown : known? (labelOf? e) (revisionOf? e) with
    | none =>
        obtain ⟨hlabel, hrevision⟩ := known?_eq_none_iff.mp hknown
        obtain ⟨hversion, hbranch⟩ := labelOf?_eq_none_iff.mp hlabel
        constructor
        · rintro ⟨rfl⟩
          exact .unversioned hversion hbranch (revisionOf?_eq_none_iff.mp hrevision)
        · rintro (⟨hsome, -⟩ | -)
          · exact absurd hversion hsome
          · rfl
    | some v =>
        refine iff_of_false (by simp) ?_
        rintro (⟨hversion, hbranch⟩ | ⟨hversion, hbranch, hempty⟩)
        · exact hone.elim hversion hbranch
        · rw [labelOf?_eq_none_iff.mpr ⟨hversion, hbranch⟩, revisionOf?_eq_none_iff.mpr hempty]
            at hknown
          exact absurd hknown (by simp [known?])
  · obtain ⟨hversion, hbranch⟩ := not_or.mp hone
    rw [lockedVersion_of_both ⟨hversion, hbranch⟩]
    constructor
    · rintro ⟨rfl⟩
      exact .versionAndBranch hversion hbranch
    · rintro (- | ⟨hnone, -⟩)
      · rfl
      · exact absurd hnone hversion

theorem known?_of_lockedVersion {e : LockedEntry} {v : LockedVersion}
    (h : lockedVersion e = .ok v) : known? (labelOf? e) (revisionOf? e) = some v := by
  by_cases hone : e.version = none ∨ e.branch = none
  · rw [lockedVersion_of_one hone] at h
    cases hknown : known? (labelOf? e) (revisionOf? e) with
    | none => simp [hknown] at h
    | some v' => simpa [hknown] using h
  · rw [lockedVersion_of_both (not_or.mp hone)] at h
    exact absurd h (by simp)

/-! ## One entry -/

theorem toProject_eq_error_iff {e : LockedEntry} {error : Error} :
    toProject e = .error error ↔ Flaw e error := by
  rw [toProject_eq, ← lockedVersion_eq_error_iff]
  cases lockedVersion e <;> simp [Except.map]

theorem says_of_toProject {e : LockedEntry} {p : LockedProject} (h : toProject e = .ok p) :
    Says e p := by
  rw [toProject_eq] at h
  cases hversion : lockedVersion e with
  | error error => simp [hversion, Except.map] at h
  | ok version =>
      obtain ⟨hlabel, hrevision⟩ := known?_eq_some (known?_of_lockedVersion hversion)
      rw [hversion] at h
      cases h
      exact ⟨rfl, rfl, hlabel, hrevision, rfl⟩

def add? (l : Lock) (_ : LockedEntry) (p : LockedProject) : Option Lock :=
  l.addProject? p

theorem addEntry_eq_step : addEntry = rules.step toProject add? := by
  funext l e
  unfold addEntry
  cases hcheck : toProject e with
  | error error =>
      rw [Rules.step_of_error hcheck]
      rfl
  | ok p =>
      dsimp only [bind, Except.bind]
      cases hadd : add? l e p with
      | none =>
          rw [Rules.step_of_none hcheck hadd, show l.addProject? p = none from hadd]
          rfl
      | some l' =>
          rw [Rules.step_of_some hcheck hadd, show l.addProject? p = some l' from hadd]
          rfl

/-- The roots are those that are named. -/
theorem roots_of_says {entries : List LockedEntry} {projects : List LockedProject}
    (h : List.Forall₂ Says entries projects) :
    projects.map (·.root) = entries.map fun e => .ofString e.name := by
  induction h with
  | nil => rfl
  | cons hsays _ ih => rw [List.map_cons, List.map_cons, hsays.root, ih]

/-- Every entry is told once it is read, and all before it still are. -/
theorem governs (digest : Option String) :
    rules.Governs toProject add? fun entries => Told ⟨digest, entries⟩ where
  check_eq_error_iff := toProject_eq_error_iff
  add?_eq_none_iff := by
    intro front l e p htold hproject
    -- a project that cannot be added has the root of one that was read
    have hmem : add? l e p = none ↔ p.root ∈ l.projects.map (·.root) := by
      rw [← Lock.find?_isSome_iff]
      simp [add?, Lock.addProject?, Option.isSome_iff_ne_none]
    rw [hmem, roots_of_says htold.projects, (says_of_toProject hproject).root]
    simp only [List.mem_map, ProjectRoot.ofString_inj]
    rfl
  reads := by
    intro front l l' e p htold hproject hadd
    have hsays := says_of_toProject hproject
    unfold add? Lock.addProject? at hadd
    split at hadd
    · exact absurd hadd (by simp)
    · next hnew =>
      cases hadd
      rw [Lock.find?_isSome_iff] at hnew
      refine ⟨?_, List.rel_append htold.projects (.cons hsays .nil), htold.inputsDigest⟩
      rw [List.map_append, List.map_singleton, ← List.concat_eq_append]
      exact htold.nodup.concat hnew

/-! ## All entries -/

/-- A lock file is read if it keeps to the rules, and the first entry that breaks one is
reported. -/
theorem outcome_toLock (f : LockFile) : rules.Outcome f.projects f.toLock (Told f) := by
  have hempty : Told ⟨f.inputsDigest, []⟩ ⟨[], f.inputsDigest⟩ := ⟨List.nodup_nil, .nil, rfl⟩
  unfold toLock
  rw [addEntry_eq_step]
  exact (governs f.inputsDigest).outcome hempty f.projects

end LockFile

/-- Exactly the files that keep to their rules are read. Of every other file the first entry that
breaks a rule is reported. -/
theorem outcome_of_files :
    (∀ f : ManifestFile,
      ManifestFile.rules.Outcome f.constraints f.toManifest (ManifestFile.Told f)) ∧
    ∀ f : LockFile, LockFile.rules.Outcome f.projects f.toLock (LockFile.Told f) :=
  ⟨ManifestFile.outcome_toManifest, LockFile.outcome_toLock⟩

namespace TwoOfEach

/-- An entry of every kind, and ignored packages with blanks and repetitions. -/
def asked : ManifestFile where
  ignored := ["a", " b ", "", "a"]
  constraints := [⟨"p/b/", some "^1.2", none, none⟩, ⟨"p/a", none, some "main", some "q/a"⟩]

/-- The second entry has both a version and a branch, and the third repeats a root. -/
def ambiguous : ManifestFile where
  ignored := []
  constraints := [⟨"p/b", none, none, none⟩, ⟨"p/a", some "1", some "main", none⟩,
    ⟨"p/b/", none, none, none⟩]

/-- An entry without a revision, one without a label, and packages that are listed twice. -/
def locked : LockFile where
  inputsDigest := some "0a"
  projects := [⟨"p/b/", none, some "", none, some "", ["x", ".", "x"]⟩,
    ⟨"p/a", some "q/a", none, none, some "r1", []⟩]

/-- The second entry repeats a root, and nothing is known of the third. -/
def repeated : LockFile where
  inputsDigest := none
  projects := [⟨"p/a", none, some "v1", none, none, []⟩, ⟨"p/a//", none, none, some "b", none, []⟩,
    ⟨"p/b", none, none, none, some "", []⟩]

end TwoOfEach

open TwoOfEach in
theorem outcome_of_files_twoOfEach :
    (∃ m, asked.toManifest = .ok m ∧ ManifestFile.Told asked m ∧ m.ignored = ["a", "b"]) ∧
    ambiguous.toManifest = .error (.versionAndBranch "p/a") ∧
    ¬ ManifestFile.rules.WellFormed ambiguous.constraints ∧
    (∃ l, locked.toLock = .ok l ∧ LockFile.Told locked l ∧
      l.projects.map (·.packages) = [["x", "."], []]) ∧
    repeated.toLock = .error (.duplicate "p/a//") ∧
    ¬ LockFile.rules.WellFormed repeated.projects := by
  obtain ⟨m, hm, hignored⟩ : ∃ m, asked.toManifest = .ok m ∧ m.ignored = ["a", "b"] :=
    ⟨_, rfl, by decide +kernel⟩
  obtain ⟨l, hl, hpackages⟩ :
      ∃ l, locked.toLock = .ok l ∧ l.projects.map (·.packages) = [["x", "."], []] :=
    ⟨_, rfl, by decide +kernel⟩
  have hambiguous : ambiguous.toManifest = .error (.versionAndBranch "p/a") := by decide +kernel
  have hrepeated : repeated.toLock = .error (.duplicate "p/a//") := by decide +kernel
  refine ⟨⟨m, hm, (outcome_of_files.1 asked).told hm, hignored⟩, hambiguous, fun hfine => ?_,
    ⟨l, hl, (outcome_of_files.2 locked).told hl, hpackages⟩, hrepeated, fun hfine => ?_⟩
  · obtain ⟨m', hm'⟩ := (outcome_of_files.1 ambiguous).isOk_iff.mpr hfine
    exact absurd (hambiguous.symm.trans hm') (by simp)
  · obtain ⟨l', hl'⟩ := (outcome_of_files.2 repeated).isOk_iff.mpr hfine
    exact absurd (hrepeated.symm.trans hl') (by simp)

end Relock
