import Relock.Resolve.Choice

/-!
# Nothing is made up

What a resolution locks is one of the versions that the provider listed, at the revision that was
recorded, or else that revision alone (`locks_of_resolve`). A revision that names something has a
text, so what is locked always comes with the text of a revision (`Locks.exists_revision`).
-/

namespace Relock

namespace Revision

/-- Only a revision with a text is named by one that has a text. -/
theorem text_ne_empty_of_isNamedBy {known recorded : Revision}
    (h : known.isNamedBy recorded = true) (hrecorded : recorded.text ≠ "") : known.text ≠ "" := by
  unfold isNamedBy at h
  rw [Bool.or_eq_true, Bool.and_eq_true] at h
  intro hempty
  rcases h with hsame | ⟨_, hshort⟩
  · rw [of_decide_eq_true hsame] at hempty
    exact hrecorded hempty
  · -- a beginning of nothing is nothing
    rw [hempty, List.isPrefixOf_iff_prefix] at hshort
    have hnil : recorded.text.toList = [] := List.prefix_nil.mp hshort
    exact hrecorded (String.toList_eq_nil_iff.mp hnil)

theorem text_ne_empty_of_isEmpty_eq_false {r : Revision} (h : r.isEmpty = false) : r.text ≠ "" := by
  intro hempty
  unfold isEmpty at h
  rw [hempty] at h
  exact absurd h (by decide)

end Revision

theorem mem_sortForUpgrade {v : PairedVersion} {versions : List PairedVersion} :
    v ∈ sortForUpgrade versions ↔ v ∈ versions :=
  List.mem_mergeSort

namespace Resolution

/-- What may be locked for a revision when some versions are listed. -/
inductive Locks (revision : Revision) (versions : List PairedVersion) : LockedVersion → Prop
  | paired {v : PairedVersion} (hlisted : v ∈ versions)
      (hnamed : v.revision.isNamedBy revision = true) : Locks revision versions (.paired v)
  | bare : Locks revision versions (.bare revision)

theorem mem_atRevision {v : PairedVersion} {revision : Revision} {versions : List PairedVersion} :
    v ∈ atRevision revision versions ↔ v ∈ versions ∧ v.revision.isNamedBy revision = true :=
  List.mem_filter

theorem locks_byRevision (root : ProjectRoot) (revision : Revision) (constraint : Option Constraint)
    (versions : List PairedVersion) :
    Locks revision versions (byRevision root revision constraint versions).1.version := by
  unfold byRevision
  cases hhere : atRevision revision versions with
  | nil => exact .bare
  | cons best others =>
      have hbest : best ∈ atRevision revision versions := by simp [hhere]
      obtain ⟨hlisted, hnamed⟩ := mem_atRevision.mp hbest
      exact .paired hlisted hnamed

theorem mem_of_spelledLike? {label : String} {versions : List PairedVersion} {v : PairedVersion}
    (h : spelledLike? label versions = some v) : v ∈ versions := by
  unfold spelledLike? at h
  rcases Option.or_eq_some_iff.mp h with hexact | ⟨_, hfirst⟩
  · exact List.mem_of_find?_eq_some hexact
  · exact List.mem_of_head? hfirst

theorem locks_choose (root : ProjectRoot) (revision : Revision) (label : Option String)
    (versions : List PairedVersion) :
    Locks revision versions (choose root revision label versions).1.version := by
  unfold choose
  cases label with
  | none => exact locks_byRevision _ _ _ _
  | some label =>
      dsimp only
      split
      · exact locks_byRevision root revision none versions
      · split
        · next exact hspelled =>
          -- the choice is among the listed versions of the number
          obtain ⟨htagged, hnamed⟩ := mem_atRevision.mp (mem_of_spelledLike? hspelled)
          exact .paired (List.mem_filter.mp htagged).1 hnamed
        · exact locks_byRevision root revision _ versions

theorem Locks.mono {revision : Revision} {versions versions' : List PairedVersion}
    {locked : LockedVersion} (h : Locks revision versions locked)
    (hsub : ∀ v ∈ versions, v ∈ versions') : Locks revision versions' locked := by
  cases h with
  | paired hlisted hnamed => exact .paired (hsub _ hlisted) hnamed
  | bare => exact .bare

/-- If the versions of a root are listed, the resolution is the choice among them. -/
theorem resolve_of_listed {σ : Type} {provider : Provider σ} {root : ProjectRoot}
    {source : Option String} {s : Session σ} {versions : List PairedVersion}
    (h : (s.listVersions provider root source).1 = .ok versions) (revision : Revision)
    (label : Option String) :
    resolve provider root source revision label s =
      (.ok (choose root revision label (sortForUpgrade versions)).1,
        (s.listVersions provider root source).2.tellAll
          (choose root revision label (sortForUpgrade versions)).2) := by
  unfold resolve
  rcases hlist : s.listVersions provider root source with ⟨answer, s'⟩
  rw [hlist] at h
  rw [show answer = .ok versions from h]

/-- If the listing fails, so does the resolution, and nothing more is told. -/
theorem resolve_of_refused {σ : Type} {provider : Provider σ} {root : ProjectRoot}
    {source : Option String} {s : Session σ} {error : SourceError}
    (h : (s.listVersions provider root source).1 = .error error) (revision : Revision)
    (label : Option String) :
    resolve provider root source revision label s =
      (.error (.ofListing root error), (s.listVersions provider root source).2) := by
  unfold resolve
  rcases hlist : s.listVersions provider root source with ⟨answer, s'⟩
  rw [hlist] at h
  rw [show answer = .error error from h]

/-- A resolution locks a version that the provider listed, or the revision alone. -/
theorem locks_of_resolve {σ : Type} {provider : Provider σ} {root : ProjectRoot}
    {source : Option String} {revision : Revision} {label : Option String} {s : Session σ}
    {resolution : Resolution}
    (h : (resolve provider root source revision label s).1 = .ok resolution) :
    ∃ versions, (s.listVersions provider root source).1 = .ok versions ∧
      Locks revision versions resolution.version := by
  unfold resolve at h
  rcases hlist : s.listVersions provider root source with ⟨error | versions, s'⟩
  · rw [hlist] at h
    exact absurd h (by simp)
  · rw [hlist] at h
    refine ⟨versions, rfl, ?_⟩
    have hchoose := locks_choose root revision label (sortForUpgrade versions)
    rw [← Except.ok.inj h]
    exact hchoose.mono fun v hv => mem_sortForUpgrade.mp hv

/-- What is locked for a revision with a text has a revision with a text. -/
theorem Locks.exists_revision {revision : Revision} {versions : List PairedVersion}
    {locked : LockedVersion} (h : Locks revision versions locked) (hrevision : revision.text ≠ "") :
    ∃ r, locked.revision? = some r ∧ r.text ≠ "" := by
  cases h with
  | paired _ hnamed => exact ⟨_, rfl, Revision.text_ne_empty_of_isNamedBy hnamed hrevision⟩
  | bare => exact ⟨revision, rfl, hrevision⟩

end Resolution

end Relock
