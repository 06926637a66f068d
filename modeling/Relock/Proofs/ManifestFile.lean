import Relock.Proofs.FirstSeen
import Relock.Proofs.Manifest
import Relock.Proofs.Root.Containment
import Relock.Proofs.Version.Range
import Relock.ManifestFile

/-!
# What a manifest file keeps of a manifest

A file gives back a manifest as it was, if every ignored package is there once and without blanks at
its ends (`toManifest_ofManifest`): every range is read from its text, every root from its own, and
the entries stand in the order of their roots, so that each is added behind those before it.

These manifests are the ones that can be built (`Manifest.Built`): what is ignored one by one is
tidy, and what a file gives back was built.
-/

namespace Relock

namespace Manifest

/-- A manifest in which every ignored package has a name without blanks at its ends and is there
once. -/
structure Tidy (m : Manifest) : Prop where
  nodup : m.ignored.Nodup
  trimmed : ∀ package ∈ m.ignored, package ≠ "" ∧ Text.trim package = package

/-- The manifests that can be built, asking something of one root or ignoring one package at a
time. -/
inductive Built : Manifest → Prop
  | empty : Built empty
  | ask {m m' : Manifest} {root : ProjectRoot} {properties : ProjectProperties} :
      Built m → m.addConstraint? root properties = some m' → Built m'
  | ignore {m m' : Manifest} {package : String} :
      Built m → m.ignore? package = some m' → Built m'

/-! ## Ignored packages -/

/-- What is added is a name without blanks at its ends that is not there yet. -/
theorem ignore?_eq_some_iff {m m' : Manifest} {package : String} :
    m.ignore? package = some m' ↔
      Text.trim package ≠ "" ∧ Text.trim package ∉ m.ignored ∧
        m' = { m with ignored := m.ignored ++ [Text.trim package] } := by
  simp only [ignore?]
  split
  · next h =>
    have hold : Text.trim package = "" ∨ Text.trim package ∈ m.ignored := by simpa using h
    simp only [reduceCtorEq, false_iff]
    rintro ⟨hne, hnew, -⟩
    exact hold.elim hne hnew
  · next h =>
    have hnew : Text.trim package ≠ "" ∧ Text.trim package ∉ m.ignored := by simpa using h
    rw [Option.some.injEq, eq_comm]
    exact ⟨fun heq => ⟨hnew.1, hnew.2, heq⟩, fun h => h.2.2⟩

theorem Tidy.ignore {m m' : Manifest} {package : String} (h : m.Tidy)
    (hignore : m.ignore? package = some m') : m'.Tidy := by
  obtain ⟨hne, hnew, rfl⟩ := ignore?_eq_some_iff.mp hignore
  refine ⟨?_, fun other hother => ?_⟩
  · rw [List.nodup_append]
    refine ⟨h.nodup, List.pairwise_singleton _ _, fun a ha b hb => ?_⟩
    rw [List.mem_singleton.mp hb]
    rintro rfl
    exact hnew ha
  · rcases List.mem_append.mp hother with hold | hlast
    · exact h.trimmed other hold
    · rw [List.mem_singleton.mp hlast]
      exact ⟨hne, Text.trim_trim package⟩

theorem Tidy.ignoreAll {m : Manifest} (h : m.Tidy) (packages : List String) :
    (m.ignoreAll packages).Tidy := by
  induction packages generalizing m with
  | nil => exact h
  | cons package packages ih =>
      rw [ignoreAll_cons]
      refine ih ?_
      cases hignore : m.ignore? package with
      | none => exact h
      | some m' => exact h.ignore hignore

theorem tidy_empty : empty.Tidy :=
  ⟨List.nodup_nil, fun _ h => absurd h List.not_mem_nil⟩

/-- Packages that are tidy and not there yet are all added as they are. -/
theorem ignoreAll_eq_append {m : Manifest} {packages : List String}
    (hnodup : (m.ignored ++ packages).Nodup)
    (htrimmed : ∀ package ∈ packages, package ≠ "" ∧ Text.trim package = package) :
    m.ignoreAll packages = { m with ignored := m.ignored ++ packages } := by
  induction packages generalizing m with
  | nil => simp [ignoreAll]
  | cons package packages ih =>
      obtain ⟨hne, htrim⟩ := htrimmed package List.mem_cons_self
      have hnew : package ∉ m.ignored := by
        intro hmem
        rw [List.nodup_append] at hnodup
        exact hnodup.2.2 package hmem package List.mem_cons_self rfl
      have hadd : m.ignore? package = some { m with ignored := m.ignored ++ [package] } := by
        rw [ignore?_eq_some_iff, htrim]
        exact ⟨hne, hnew, rfl⟩
      rw [ignoreAll_cons, hadd, Option.getD_some, ih]
      · rw [List.append_assoc, List.singleton_append]
      · rw [List.append_assoc, List.singleton_append]
        exact hnodup
      · exact fun other hother => htrimmed other (List.mem_cons_of_mem _ hother)

/-- A list is ignored name by name, without the blanks at the ends and in first-seen order. -/
theorem ignored_ignoreAll {m : Manifest} {before : List String}
    (h : m.ignored = ((before.map Text.trim).filter (· ≠ "")).eraseDups) (packages : List String) :
    (m.ignoreAll packages).ignored =
      (((before ++ packages).map Text.trim).filter (· ≠ "")).eraseDups := by
  -- `before` are the names given so far, as they were written
  induction packages generalizing m before with
  | nil => rw [List.append_nil, ← h, ignoreAll, List.foldl_nil]
  | cons package packages ih =>
      rw [ignoreAll_cons, List.append_cons]
      refine ih ?_
      rw [List.map_append, List.filter_append, List.map_singleton]
      cases hignore : m.ignore? package with
      | some m' =>
          obtain ⟨hne, hnew, rfl⟩ := ignore?_eq_some_iff.mp hignore
          rw [h, List.mem_eraseDups] at hnew
          rw [List.filter_cons_of_pos (by simpa using hne), List.filter_nil,
            eraseDups_concat_of_not_mem hnew, ← h]
          rfl
      | none =>
          rw [Option.getD_none, h]
          by_cases hempty : Text.trim package = ""
          · rw [List.filter_cons_of_neg (by simpa using hempty), List.filter_nil, List.append_nil]
          · -- only a name that is there already is left out
            have hold : Text.trim package ∈ m.ignored := by
              by_contra hnew
              rw [ignore?_eq_some_iff.mpr ⟨hempty, hnew, rfl⟩] at hignore
              exact absurd hignore (by simp)
            rw [h, List.mem_eraseDups] at hold
            rw [List.filter_cons_of_pos (by simpa using hempty), List.filter_nil,
              eraseDups_concat_of_mem hold]

/-! ## Manifests that can be built -/

/-- Asking something of a root does not bear on what is ignored. -/
theorem ignored_addConstraint? {m m' : Manifest} {root : ProjectRoot}
    {properties : ProjectProperties} (h : m.addConstraint? root properties = some m') :
    m'.ignored = m.ignored := by
  obtain ⟨constraints, -, rfl⟩ := Option.map_eq_some_iff.mp h
  rfl

theorem Built.tidy {m : Manifest} (h : m.Built) : m.Tidy := by
  induction h with
  | empty => exact tidy_empty
  | ask _ hask ih =>
      obtain ⟨hnodup, htrimmed⟩ := ih
      rw [← ignored_addConstraint? hask] at hnodup htrimmed
      exact ⟨hnodup, htrimmed⟩
  | ignore _ hignore ih => exact ih.ignore hignore

theorem Built.ignoreAll {m : Manifest} (h : m.Built) (packages : List String) :
    (m.ignoreAll packages).Built := by
  induction packages generalizing m with
  | nil => exact h
  | cons package packages ih =>
      rw [ignoreAll_cons]
      refine ih ?_
      cases hignore : m.ignore? package with
      | none => exact h
      | some m' => exact h.ignore hignore

end Manifest

namespace SortedMap

variable {κ : Type} [Ord κ] {α : Type}

/-- An entry whose key is greater than all others comes last. -/
theorem place_eq_concat [Std.TransOrd κ] {key : κ} {entries : List (κ × α)}
    (h : ∀ entry ∈ entries, compare entry.1 key = .lt) (value : α) :
    place key value entries = entries ++ [(key, value)] := by
  induction entries with
  | nil => rfl
  | cons entry rest ih =>
      have hgt : compare key entry.1 = .gt :=
        Std.OrientedCmp.gt_iff_lt.mpr (h entry List.mem_cons_self)
      simp only [place, hgt, List.cons_append]
      rw [ih fun other hother => h other (List.mem_cons_of_mem _ hother)]

/-- A key that is greater than all others has no value. -/
theorem lookup?_eq_none_of_lt [Std.TransOrd κ] {m : SortedMap κ α} {key : κ}
    (h : ∀ entry ∈ m.entries, compare entry.1 key = .lt) : m.lookup? key = none := by
  unfold lookup?
  rw [Option.map_eq_none_iff, List.find?_eq_none]
  intro entry hentry
  have hgt : compare key entry.1 = .gt := Std.OrientedCmp.gt_iff_lt.mpr (h entry hentry)
  simp [hgt]

end SortedMap

namespace ManifestFile

/-! ## The entries of a file -/

/-- A constraint is read from its text. -/
theorem constraint?_entryOf (root : ProjectRoot) (p : ProjectProperties) :
    constraint? (entryOf root p) = .ok p.constraint := by
  obtain ⟨constraint, source⟩ := p
  cases constraint with
  | none => rfl
  | some constraint =>
      cases constraint with
      | range r => simp [constraint?, entryOf, Range.render, Range.parse?_chars]
      | branch name => rfl

/-- What a file says of a root is asked again, behind the roots before it. -/
theorem addEntry_entryOf {m : Manifest} {root : ProjectRoot} (p : ProjectProperties)
    (h : ∀ entry ∈ m.constraints.entries, compare entry.1 root = .lt) :
    addEntry m (entryOf root p) =
      .ok { m with constraints := m.constraints.insert root p } := by
  have hnew : m.constraints.insertNew? root p = some (m.constraints.insert root p) := by
    unfold SortedMap.insertNew?
    rw [SortedMap.lookup?_eq_none_of_lt h, if_neg (by simp)]
  have hask : m.addConstraint? (.ofString (entryOf root p).name)
      ⟨p.constraint, (entryOf root p).source⟩ =
        some { m with constraints := m.constraints.insert root p } := by
    show m.addConstraint? (.ofString root.text) p = _
    rw [ProjectRoot.ofString_text, Manifest.addConstraint?, hnew]
    rfl
  unfold addEntry
  rw [constraint?_entryOf]
  dsimp only [bind, Except.bind]
  rw [hask]
  rfl

/-- The entries that a file has of a map make up that map again. -/
theorem foldlM_addEntry {m : Manifest} {rest : List (ProjectRoot × ProjectProperties)}
    {constraints : SortedMap ProjectRoot ProjectProperties}
    (h : constraints.entries = m.constraints.entries ++ rest) :
    (rest.map fun (root, p) => entryOf root p).foldlM addEntry m =
      .ok { m with constraints := constraints } := by
  induction rest generalizing m with
  | nil =>
      obtain ⟨⟨entries, sorted⟩, ignored⟩ := m
      obtain ⟨entries', sorted'⟩ := constraints
      rw [List.append_nil] at h
      subst h
      rfl
  | cons entry rest ih =>
      obtain ⟨root, p⟩ := entry
      -- the whole map is sorted, so the root comes behind all that were asked for
      have hsorted := constraints.sorted
      rw [h, List.pairwise_append] at hsorted
      have hlast : ∀ entry ∈ m.constraints.entries, compare entry.1 root = .lt :=
        fun entry hentry => hsorted.2.2 entry hentry (root, p) List.mem_cons_self
      rw [List.map_cons, List.foldlM_cons, addEntry_entryOf p hlast]
      refine ih ?_
      rw [h]
      show _ = SortedMap.place root p m.constraints.entries ++ rest
      rw [SortedMap.place_eq_concat hlast, List.append_assoc, List.singleton_append]

/-- A tidy manifest comes back as it was. -/
theorem toManifest_ofManifest {m : Manifest} (h : m.Tidy) :
    (ofManifest m).toManifest = .ok m := by
  obtain ⟨constraints, ignored⟩ := m
  have hconstraints : (ofManifest ⟨constraints, ignored⟩).constraints.foldlM addEntry .empty =
      .ok ⟨constraints, []⟩ := foldlM_addEntry rfl
  have hignored : (Manifest.mk constraints []).ignoreAll ignored = ⟨constraints, ignored⟩ :=
    Manifest.ignoreAll_eq_append h.nodup h.trimmed
  unfold toManifest
  rw [hconstraints]
  show Except.ok ((Manifest.mk constraints []).ignoreAll ignored) = _
  rw [hignored]

/-! ## The manifests that come back -/

/-- An entry is read by asking what it says of its root. -/
theorem exists_addConstraint?_of_addEntry {m m' : Manifest} {e : ConstraintEntry}
    (h : addEntry m e = .ok m') : ∃ constraint, constraint? e = .ok constraint ∧
      m.addConstraint? (.ofString e.name) ⟨constraint, e.source⟩ = some m' := by
  unfold addEntry at h
  cases hconstraint : constraint? e with
  | error error =>
      rw [hconstraint] at h
      exact absurd h (by simp [bind, Except.bind])
  | ok constraint =>
      rw [hconstraint] at h
      refine ⟨constraint, rfl, ?_⟩
      cases hask : m.addConstraint? (.ofString e.name) ⟨constraint, e.source⟩ with
      | none =>
          simp only [bind, Except.bind, hask] at h
          exact absurd h (by simp [throw, throwThe, MonadExceptOf.throw])
      | some asked =>
          simp only [bind, Except.bind, hask] at h
          cases h
          rfl

/-- What a file says is built entry by entry. -/
theorem built_of_foldlM_addEntry {m m' : Manifest} {entries : List ConstraintEntry}
    (hbuilt : m.Built) (h : entries.foldlM addEntry m = .ok m') : m'.Built := by
  induction entries generalizing m with
  | nil =>
      cases h
      exact hbuilt
  | cons e entries ih =>
      rw [List.foldlM_cons] at h
      cases hadd : addEntry m e with
      | error error =>
          rw [hadd] at h
          exact absurd h (by simp [bind, Except.bind])
      | ok next =>
          rw [hadd] at h
          obtain ⟨constraint, -, hask⟩ := exists_addConstraint?_of_addEntry hadd
          exact ih (hbuilt.ask hask) h

/-- The manifests that come back from their files as they were are those that can be built. -/
theorem toManifest_ofManifest_iff {m : Manifest} :
    (ofManifest m).toManifest = .ok m ↔ m.Built := by
  constructor
  · intro h
    unfold toManifest at h
    cases hentries : (ofManifest m).constraints.foldlM addEntry .empty with
    | error error =>
        rw [hentries] at h
        exact absurd h (by simp [bind, Except.bind])
    | ok m' =>
        rw [hentries] at h
        have hignored : m'.ignoreAll m.ignored = m := Except.ok.inj h
        rw [← hignored]
        exact (built_of_foldlM_addEntry .empty hentries).ignoreAll m.ignored
  · intro h
    exact toManifest_ofManifest h.tidy

end ManifestFile

end Relock
