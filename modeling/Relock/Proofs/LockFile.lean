import Relock.LockFile
import Relock.Proofs.Lock
import Relock.Proofs.Root.Containment

/-!
# What a lock file keeps of a lock

A file names every version by its text, so reading it back tells a tag's kind anew and no default
branch (`Version.reread`), and takes an empty revision for none (`LockedVersion.reloaded?`).
Everything else comes back as it was (`toLock_ofLock`), if roots are distinct and no package of a
project is there twice.
-/

namespace Relock

namespace Version

/-- The version that its text is read as: a branch is not marked, a tag may be semantic. -/
def reread : Version → Version
  | branch name _ => branch name false
  | v => ofTag v.label

theorem label_ofTag (tag : String) : (ofTag tag).label = tag := by
  unfold ofTag
  split
  · split <;> rfl
  · rfl

theorem ofTag_ne_branch {tag name : String} {isDefault : Bool} :
    ofTag tag ≠ branch name isDefault := by
  unfold ofTag
  split
  · split <;> simp
  · simp

theorem reread_ofTag (tag : String) : (ofTag tag).reread = ofTag tag := by
  unfold reread
  split
  · next name isDefault h => exact absurd h ofTag_ne_branch
  · rw [label_ofTag]

/-- Only tags read from their texts and branches without a mark are read as they are. -/
theorem reread_eq_self_iff {v : Version} :
    v.reread = v ↔ (∃ tag, v = ofTag tag) ∨ ∃ name, v = branch name false := by
  constructor
  · intro h
    cases v with
    | branch name isDefault => exact .inr ⟨name, h.symm⟩
    | semver number label => exact .inl ⟨label, h.symm⟩
    | tag name => exact .inl ⟨name, h.symm⟩
  · rintro (⟨tag, rfl⟩ | ⟨name, rfl⟩)
    · exact reread_ofTag tag
    · rfl

end Version

namespace LockedVersion

/-- The version with its label read from its text. -/
def reread : LockedVersion → LockedVersion
  | unpaired version => unpaired version.reread
  | paired version => paired ⟨version.version.reread, version.revision⟩
  | bare revision => bare revision

/-- What a file gives back of a version; an empty revision is none. -/
def reloaded? : LockedVersion → Option LockedVersion
  | unpaired version => some (unpaired version.reread)
  | paired version =>
    if version.revision.text.isEmpty then some (unpaired version.version.reread)
    else some (paired ⟨version.version.reread, version.revision⟩)
  | bare revision => if revision.text.isEmpty then none else some (bare revision)

/-- A version with the text of a revision comes back with it. -/
theorem reloaded?_eq_some_reread {v : LockedVersion} {r : Revision} (h : v.revision? = some r)
    (hr : r.text ≠ "") : v.reloaded? = some v.reread := by
  cases v with
  | unpaired version => rfl
  | paired version =>
      cases h
      have hsome : version.revision.text.isEmpty = false := by simpa using hr
      simp [reloaded?, reread, hsome]
  | bare revision =>
      cases h
      have hsome : r.text.isEmpty = false := by simpa using hr
      simp [reloaded?, reread, hsome]

theorem reread_eq_self_iff {v : LockedVersion} :
    v.reread = v ↔ ∀ label ∈ v.version?, label.reread = label := by
  cases v with
  | unpaired version => simp [reread, version?]
  | paired version =>
      obtain ⟨label, revision⟩ := version
      simp [reread, version?]
  | bare revision => simp [reread, version?]

end LockedVersion

namespace LockedProject

/-- The project with the label of its version read from its text. -/
def reread (p : LockedProject) : LockedProject :=
  { p with version := p.version.reread }

/-- What a file gives back of a project. -/
def reloaded? (p : LockedProject) : Option LockedProject :=
  p.version.reloaded?.map fun version => { p with version }

end LockedProject

/-- The lock with all labels read from their texts. -/
def Lock.reread (l : Lock) : Lock :=
  { l with projects := l.projects.map LockedProject.reread }

theorem Lock.reread_eq_self_iff {l : Lock} :
    l.reread = l ↔ ∀ p ∈ l.projects, ∀ label ∈ p.version.version?, label.reread = label := by
  have hprojects : l.reread = l ↔ l.projects.map LockedProject.reread = l.projects := by
    obtain ⟨projects, digest⟩ := l
    simp [Lock.reread]
  rw [hprojects]
  nth_rewrite 2 [← List.map_id l.projects]
  rw [List.map_inj_left]
  refine forall₂_congr fun p _ => ?_
  rw [← LockedVersion.reread_eq_self_iff]
  obtain ⟨root, source, version, packages⟩ := p
  simp [LockedProject.reread]

namespace LockFile

/-! ## One entry -/

theorem label?_entryOf (p : LockedProject) :
    label? (entryOf p) = .ok (p.version.version?.map Version.reread) := by
  unfold label? entryOf
  cases hlabel : p.version.version? with
  | none => rfl
  | some label => cases label <;> rfl

theorem filter_revision (r : Revision) :
    (some r).filter (fun r => !r.text.isEmpty) = if r.text.isEmpty then none else some r := by
  by_cases hempty : r.text.isEmpty = true <;> simp [Option.filter, hempty]

/-- The revision of an entry is the one of its project, unless it is empty. -/
theorem revision_entryOf (p : LockedProject) :
    ((entryOf p).revision.filter fun text => !text.isEmpty).map Revision.mk =
      p.version.revision?.filter fun r => !r.text.isEmpty := by
  show ((p.version.revision?.map (·.text)).filter fun text => !text.isEmpty).map Revision.mk = _
  cases p.version.revision? with
  | none => rfl
  | some r => by_cases hempty : r.text.isEmpty = true <;> simp [Option.filter, hempty]

/-- The version of an entry is what a file gives back of the version of its project. -/
theorem lockedVersion_entryOf (p : LockedProject) : lockedVersion (entryOf p) =
    p.version.reloaded?.elim (.error (.unversioned p.root.text)) .ok := by
  unfold lockedVersion
  rw [label?_entryOf, revision_entryOf]
  cases hversion : p.version with
  | unpaired version => rfl
  | paired version =>
      rw [LockedVersion.revision?, filter_revision, LockedVersion.reloaded?]
      split <;> rfl
  | bare revision =>
      rw [LockedVersion.revision?, filter_revision, LockedVersion.reloaded?]
      split <;> rfl

/-- The project of an entry has its packages in first-seen order. -/
theorem toProject_eq (e : LockedEntry) : toProject e = (lockedVersion e).map fun version =>
    ⟨.ofString e.name, e.source, version, e.packages.eraseDups⟩ := by
  unfold toProject
  cases lockedVersion e with
  | error error => rfl
  | ok version =>
      have hnone : (⟨.ofString e.name, e.source, version, []⟩ : LockedProject).packages =
          [].eraseDups := rfl
      exact congrArg Except.ok (LockedProject.addPackages_eq hnone e.packages)

/-- The project of an entry is what a file gives back of its project. -/
theorem toProject_entryOf {p p' : LockedProject} (hpackages : p.packages.Nodup)
    (hp : p.reloaded? = some p') : toProject (entryOf p) = .ok p' := by
  obtain ⟨version, hversion, rfl⟩ := Option.map_eq_some_iff.mp hp
  rw [toProject_eq, lockedVersion_entryOf, hversion]
  show Except.ok (⟨.ofString p.root.text, p.source, version, p.packages.eraseDups⟩ :
    LockedProject) = _
  rw [ProjectRoot.ofString_text, eraseDups_eq_self hpackages]

/-! ## All entries -/

/-- An entry of a new root adds its project at the end. -/
theorem addEntry_of_not_mem {l : Lock} {e : LockedEntry} {p : LockedProject}
    (hproject : toProject e = .ok p) (h : p.root ∉ l.projects.map (·.root)) :
    addEntry l e = .ok { l with projects := l.projects ++ [p] } := by
  unfold addEntry
  rw [hproject]
  simp only [bind, Except.bind, Lock.addProject?_of_not_mem h]
  rfl

/-- A file gives back the projects of a lock after those that are there already. -/
theorem foldlM_addEntry {front projects : List LockedProject} {digest : Option String}
    (hroots : ((front ++ projects).map (·.root)).Nodup)
    (hpackages : ∀ p ∈ projects, p.packages.Nodup)
    (hreloaded : ∀ p ∈ projects, p.reloaded?.isSome = true) :
    (projects.map entryOf).foldlM addEntry ⟨front, digest⟩ =
      .ok ⟨front ++ projects.filterMap LockedProject.reloaded?, digest⟩ := by
  induction projects generalizing front with
  | nil =>
      rw [List.filterMap_nil, List.append_nil]
      rfl
  | cons p rest ih =>
      obtain ⟨p', hp'⟩ := Option.isSome_iff_exists.mp (hreloaded p List.mem_cons_self)
      have hroot : p'.root = p.root := by
        obtain ⟨_, _, rfl⟩ := Option.map_eq_some_iff.mp hp'
        rfl
      -- the root of the next project is not among those that are there already
      have hnext : ((front ++ [p'] ++ rest).map (·.root)).Nodup := by
        simpa [hroot] using hroots
      have hfresh : p'.root ∉ front.map (·.root) := by
        rw [List.map_append, List.map_append, List.nodup_append, List.nodup_append] at hnext
        exact fun hmem => hnext.1.2.2 _ hmem _ (by simp) rfl
      have hproject := toProject_entryOf (hpackages p List.mem_cons_self) hp'
      have hadd : addEntry ⟨front, digest⟩ (entryOf p) = .ok ⟨front ++ [p'], digest⟩ :=
        addEntry_of_not_mem hproject hfresh
      rw [List.map_cons, List.foldlM_cons, hadd, List.filterMap_cons_some hp',
        List.append_cons front p' (rest.filterMap LockedProject.reloaded?)]
      exact ih hnext (fun q hq => hpackages q (List.mem_cons_of_mem _ hq))
        fun q hq => hreloaded q (List.mem_cons_of_mem _ hq)

/-- A file gives back the projects of a lock with distinct roots and packages. -/
theorem toLock_ofLock {l : Lock} (hroots : (l.projects.map (·.root)).Nodup)
    (hpackages : ∀ p ∈ l.projects, p.packages.Nodup)
    (hreloaded : ∀ p ∈ l.projects, p.reloaded?.isSome = true) :
    (ofLock l).toLock =
      .ok { l with projects := l.projects.filterMap LockedProject.reloaded? } := by
  rw [← List.nil_append l.projects] at hroots
  exact foldlM_addEntry hroots hpackages hreloaded

/-- If every version has the text of a revision, nothing but labels is read anew. -/
theorem toLock_ofLock_eq_reread {l : Lock} (hroots : (l.projects.map (·.root)).Nodup)
    (hpackages : ∀ p ∈ l.projects, p.packages.Nodup)
    (hrevision : ∀ p ∈ l.projects, ∃ r, p.version.revision? = some r ∧ r.text ≠ "") :
    (ofLock l).toLock = .ok l.reread := by
  have hreloaded : ∀ p ∈ l.projects, p.reloaded? = some p.reread := by
    intro p hp
    obtain ⟨r, hr, htext⟩ := hrevision p hp
    unfold LockedProject.reloaded?
    rw [LockedVersion.reloaded?_eq_some_reread hr htext]
    rfl
  rw [toLock_ofLock hroots hpackages fun p hp => by rw [hreloaded p hp]; rfl]
  congr 2
  rw [List.filterMap_congr hreloaded, List.filterMap_eq_map']

end LockFile

end Relock
