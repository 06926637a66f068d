import Relock.Proofs.LockFile

/-!
# The normal form of a lock

A lock is built by adding projects and packages, its versions being made of tags and branches
(`Lock.Built`). What a file gives back of such a lock is its normal form (`Lock.normal`):

* no branch is marked as the default one;
* no version is paired with an empty revision.

All else is as it was, and the normal form comes back as it is. The one thing that a file cannot
hold is a project of which nothing but an empty revision is known (`toLock_ofLock_of_built`).
-/

namespace Relock

namespace Version

/-- The versions that are made of the text of a tag or of the name of a branch. -/
inductive Made : Version → Prop
  | tag (text : String) : Made (ofTag text)
  | branch (name : String) (isDefault : Bool) : Made (branch name isDefault)

/-- The version without the mark of the default branch. -/
def unmarked : Version → Version
  | branch name _ => branch name false
  | v => v

@[simp] theorem unmarked_unmarked (v : Version) : v.unmarked.unmarked = v.unmarked := by
  cases v <;> rfl

theorem unmarked_ofTag (tag : String) : (ofTag tag).unmarked = ofTag tag := by
  unfold unmarked
  split
  · next name isDefault h => exact absurd h ofTag_ne_branch
  · rfl

theorem Made.unmarked {v : Version} (h : v.Made) : v.unmarked.Made := by
  cases h with
  | tag text =>
      rw [unmarked_ofTag]
      exact .tag text
  | branch name isDefault => exact .branch name false

/-- What is made of a text is read from that text again, but for the mark. -/
theorem Made.reread {v : Version} (h : v.Made) : v.reread = v.unmarked := by
  cases h with
  | tag text => rw [reread_ofTag, unmarked_ofTag]
  | branch name isDefault => rfl

end Version

namespace LockedVersion

/-- The versions whose label, if they have one, is made of a text. -/
def Made (v : LockedVersion) : Prop :=
  ∀ label ∈ v.version?, label.Made

/-- The version without the mark of the default branch and without an empty revision. -/
def normal : LockedVersion → LockedVersion
  | unpaired version => unpaired version.unmarked
  | paired version =>
    if version.revision.text.isEmpty then unpaired version.version.unmarked
    else paired ⟨version.version.unmarked, version.revision⟩
  | bare revision => bare revision

@[simp] theorem normal_normal (v : LockedVersion) : v.normal.normal = v.normal := by
  cases v with
  | unpaired version => simp [normal]
  | paired version =>
      by_cases hempty : version.revision.text.isEmpty = true <;> simp [normal, hempty]
  | bare revision => rfl

theorem Made.normal {v : LockedVersion} (h : v.Made) : v.normal.Made := by
  intro label hlabel
  have hmade : ∀ old ∈ v.version?, label = old.unmarked → label.Made := by
    rintro old hold rfl
    exact (h old hold).unmarked
  cases v with
  | unpaired version => exact hmade version rfl (Option.some.inj hlabel).symm
  | paired version =>
      refine hmade version.version rfl ?_
      by_cases hempty : version.revision.text.isEmpty = true <;>
        simpa [LockedVersion.normal, hempty, version?, eq_comm] using hlabel
  | bare revision => exact absurd hlabel (by simp [LockedVersion.normal, version?])

theorem normal_eq_bare_iff {v : LockedVersion} {r : Revision} :
    v.normal = bare r ↔ v = bare r := by
  cases v with
  | unpaired version => simp [normal]
  | paired version =>
      by_cases hempty : version.revision.text.isEmpty = true <;> simp [normal, hempty]
  | bare revision => rfl

/-- A file gives back the normal form, unless nothing but an empty revision is known. -/
theorem Made.reloaded? {v : LockedVersion} (h : v.Made) :
    v.reloaded? = if v = bare ⟨""⟩ then none else some v.normal := by
  cases v with
  | unpaired version =>
      have hreread := (h version rfl).reread
      simp [LockedVersion.reloaded?, LockedVersion.normal, hreread]
  | paired version =>
      have hreread := (h version.version rfl).reread
      by_cases hempty : version.revision.text.isEmpty = true <;>
        simp [LockedVersion.reloaded?, LockedVersion.normal, hreread, hempty]
  | bare revision =>
      obtain ⟨text⟩ := revision
      simp [LockedVersion.reloaded?, LockedVersion.normal]

end LockedVersion

/-- The project with the normal form of its version. -/
def LockedProject.normal (p : LockedProject) : LockedProject :=
  { p with version := p.version.normal }

namespace Lock

/-- The lock with the normal forms of all versions. -/
def normal (l : Lock) : Lock :=
  { l with projects := l.projects.map LockedProject.normal }

/-- The locks that come about by adding projects and packages, signed with any digest. -/
inductive Built : Lock → Prop
  | empty : Built Lock.empty
  | sign {l : Lock} (digest : Option String) (h : Built l) : Built { l with inputsDigest := digest }
  | addProject {l l' : Lock} (root : ProjectRoot) (source : Option String)
      (version : LockedVersion) (packages : List String) (hversion : version.Made) (h : Built l)
      (hadd : l.addProject? (LockedProject.addPackages ⟨root, source, version, []⟩ packages) =
        some l') : Built l'
  | addPackage {l : Lock} (root : ProjectRoot) (package : String) (h : Built l) :
      Built (l.addPackage root package)

/-- The locks that have one project for each root, each package of it once, and versions made of
tags and branches. -/
structure Orderly (l : Lock) : Prop where
  roots : (l.projects.map (·.root)).Nodup
  packages : ∀ p ∈ l.projects, p.packages.Nodup
  versions : ∀ p ∈ l.projects, p.version.Made

end Lock

theorem LockedProject.nodup_addPackage {p : LockedProject} (h : p.packages.Nodup)
    (package : String) : (p.addPackage package).packages.Nodup := by
  rw [addPackage_eq (eraseDups_eq_self h).symm]
  exact nodup_eraseDups _

namespace Lock

/-- Adding projects and packages keeps a lock orderly. -/
theorem Built.orderly {l : Lock} (h : l.Built) : l.Orderly := by
  induction h with
  | empty => exact ⟨by simp [Lock.empty], by simp [Lock.empty], by simp [Lock.empty]⟩
  | sign digest h ih => exact ⟨ih.roots, ih.packages, ih.versions⟩
  | @addProject l l' root source version packages hversion h hadd ih =>
      have hnone : (⟨root, source, version, []⟩ : LockedProject).packages = [].eraseDups := rfl
      rw [LockedProject.addPackages_eq hnone] at hadd
      unfold addProject? at hadd
      split at hadd
      · exact absurd hadd (by simp)
      · next hfresh =>
        obtain rfl := Option.some.inj hadd
        rw [find?_isSome_iff] at hfresh
        refine ⟨?_, ?_, ?_⟩
        · rw [List.map_append, List.nodup_append]
          refine ⟨ih.roots, by simp, ?_⟩
          intro old hold new hnew heq
          have hroot : new = root := List.mem_singleton.mp hnew
          exact hfresh (hroot ▸ heq ▸ hold)
        · intro p hp
          rcases List.mem_append.mp hp with hold | hnew
          · exact ih.packages p hold
          · rw [List.mem_singleton.mp hnew]
            exact nodup_eraseDups _
        · intro p hp
          rcases List.mem_append.mp hp with hold | hnew
          · exact ih.versions p hold
          · rw [List.mem_singleton.mp hnew]
            exact hversion
  | @addPackage l root package h ih =>
      have hprojects : (l.addPackage root package).projects =
          l.projects.map fun p => if p.root = root then p.addPackage package else p :=
        modifyFirst_eq_map ih.roots
      -- a project that gets a package keeps its root and its version
      have hkept : ∀ p : LockedProject,
          (if p.root = root then p.addPackage package else p).root = p.root ∧
            (if p.root = root then p.addPackage package else p).version = p.version := by
        intro p
        unfold LockedProject.addPackage
        split
        · split <;> exact ⟨rfl, rfl⟩
        · exact ⟨rfl, rfl⟩
      refine ⟨?_, ?_, ?_⟩
      · rw [hprojects, List.map_map]
        simpa only [Function.comp_def, (hkept _).1] using ih.roots
      · rw [hprojects]
        intro p' hp'
        obtain ⟨p, hp, rfl⟩ := List.mem_map.mp hp'
        split
        · exact LockedProject.nodup_addPackage (ih.packages p hp) package
        · exact ih.packages p hp
      · rw [hprojects]
        intro p' hp'
        obtain ⟨p, hp, rfl⟩ := List.mem_map.mp hp'
        rw [(hkept p).2]
        exact ih.versions p hp

theorem Orderly.normal {l : Lock} (h : l.Orderly) : l.normal.Orderly where
  roots := by
    rw [Lock.normal, List.map_map]
    exact h.roots
  packages p' hp' := by
    obtain ⟨p, hp, rfl⟩ := List.mem_map.mp hp'
    exact h.packages p hp
  versions p' hp' := by
    obtain ⟨p, hp, rfl⟩ := List.mem_map.mp hp'
    exact (h.versions p hp).normal

@[simp] theorem normal_normal (l : Lock) : l.normal.normal = l.normal := by
  simp [Lock.normal, LockedProject.normal, Function.comp_def]

end Lock

namespace LockFile

/-- A project of which nothing but an empty revision is known is refused. -/
theorem addEntry_of_unversioned {p : LockedProject} (h : p.version.reloaded? = none) (l : Lock) :
    addEntry l (entryOf p) = .error (.unversioned p.root.text) := by
  have hversion := lockedVersion_entryOf p
  rw [h, Option.elim_none] at hversion
  unfold addEntry toProject
  rw [hversion]
  rfl

/-- A file gives back the normal form of an orderly lock, or refuses its first project of which
nothing but an empty revision is known. -/
theorem toLock_ofLock_of_orderly {l : Lock} (h : l.Orderly) :
    (ofLock l).toLock = (l.projects.find? (·.version = .bare ⟨""⟩)).elim (.ok l.normal)
      fun p => .error (.unversioned p.root.text) := by
  have hreloaded : ∀ p ∈ l.projects, p.version ≠ .bare ⟨""⟩ → p.reloaded? = some p.normal := by
    intro p hp hne
    unfold LockedProject.reloaded?
    rw [(h.versions p hp).reloaded?, if_neg hne]
    rfl
  cases hbare : l.projects.find? (·.version = .bare ⟨""⟩) with
  | none =>
      have hall : ∀ p ∈ l.projects, p.reloaded? = some p.normal := by
        intro p hp
        exact hreloaded p hp (by simpa using List.find?_eq_none.mp hbare p hp)
      rw [toLock_ofLock h.roots h.packages fun p hp => by rw [hall p hp]; rfl, Option.elim_none]
      congr 2
      rw [List.filterMap_congr hall, List.filterMap_eq_map']
  | some p =>
      obtain ⟨hp, front, back, hprojects, hfront⟩ := List.find?_eq_some_iff_append.mp hbare
      obtain ⟨projects, digest⟩ := l
      dsimp only at hprojects hreloaded
      subst hprojects
      -- the projects before it are read, and it ends the reading
      have hroots : (([] ++ front : List LockedProject).map (·.root)).Nodup := by
        have hall := h.roots
        rw [List.map_append, List.nodup_append] at hall
        exact hall.1
      have hread : (front.map entryOf).foldlM addEntry ⟨[], digest⟩ = _ :=
        foldlM_addEntry hroots (fun q hq => h.packages q (List.mem_append_left _ hq)) fun q hq => by
          rw [hreloaded q (List.mem_append_left _ hq) (by simpa using hfront q hq)]
          rfl
      have hversion : p.version.reloaded? = none := by
        rw [of_decide_eq_true hp]
        rfl
      show ((front ++ p :: back).map entryOf).foldlM addEntry ⟨[], digest⟩ = _
      rw [List.map_append, List.foldlM_append, hread, List.map_cons]
      show (entryOf p :: back.map entryOf).foldlM addEntry _ = _
      rw [List.foldlM_cons, addEntry_of_unversioned hversion]
      rfl

/-- Nothing is refused if something is known of every project. -/
theorem toLock_ofLock_eq_normal {l : Lock} (h : l.Orderly)
    (hknown : ¬ ∃ p ∈ l.projects, p.version = .bare ⟨""⟩) : (ofLock l).toLock = .ok l.normal := by
  have hnone : l.projects.find? (·.version = .bare ⟨""⟩) = none := by
    rw [List.find?_eq_none]
    intro p hp hversion
    exact hknown ⟨p, hp, of_decide_eq_true hversion⟩
  rw [toLock_ofLock_of_orderly h, hnone, Option.elim_none]

theorem exists_error_of_bare {l : Lock} (h : l.Orderly)
    (hbare : ∃ p ∈ l.projects, p.version = .bare ⟨""⟩) :
    ∃ error, (ofLock l).toLock = .error error := by
  obtain ⟨p, hp, hversion⟩ := hbare
  have hread := toLock_ofLock_of_orderly h
  cases hfind : l.projects.find? (·.version = .bare ⟨""⟩) with
  | none => exact absurd (decide_eq_true hversion) (List.find?_eq_none.mp hfind p hp)
  | some first =>
      rw [hfind] at hread
      exact ⟨_, hread⟩

/-- A file refuses a lock that was built if and only if nothing but an empty revision is known of a
project of it. Every other lock comes back in its normal form, and that as it is. -/
theorem toLock_ofLock_of_built {l : Lock} (h : l.Built) :
    ((∃ error, (ofLock l).toLock = .error error) ↔
        ∃ p ∈ l.projects, p.version = .bare ⟨""⟩) ∧
      ((¬ ∃ p ∈ l.projects, p.version = .bare ⟨""⟩) →
        (ofLock l).toLock = .ok l.normal ∧ (ofLock l.normal).toLock = .ok l.normal) := by
  refine ⟨⟨?_, exists_error_of_bare h.orderly⟩, fun hknown => ?_⟩
  · rintro ⟨error, herror⟩
    by_contra hknown
    rw [toLock_ofLock_eq_normal h.orderly hknown] at herror
    exact absurd herror (by simp)
  · have hknown' : ¬ ∃ p ∈ l.normal.projects, p.version = .bare ⟨""⟩ := by
      rintro ⟨p', hp', hversion⟩
      obtain ⟨p, hp, rfl⟩ := List.mem_map.mp hp'
      exact hknown ⟨p, hp, LockedVersion.normal_eq_bare_iff.mp hversion⟩
    have hread := toLock_ofLock_eq_normal h.orderly.normal hknown'
    rw [Lock.normal_normal] at hread
    exact ⟨toLock_ofLock_eq_normal h.orderly hknown, hread⟩

namespace Lossy

/-- A default branch at a revision, a tag at an empty one, and one more package. -/
def lock : Lock where
  projects := [
    ⟨.ofString "example.org/a/", none, .paired ⟨.branch "master" true, ⟨"3f4c3be"⟩⟩, [".", "x"]⟩,
    ⟨.ofString "example.org/b", some "example.org/fork", .paired ⟨.ofTag "v1.2", ⟨""⟩⟩, []⟩]
  inputsDigest := some "abc123"

/-- Nothing but an empty revision. -/
def bare : Lock := ⟨[⟨.ofString "example.org/a", none, .bare ⟨""⟩, ["."]⟩], none⟩

theorem built : lock.Built := by
  have hbranch : (LockedVersion.paired ⟨.branch "master" true, ⟨"3f4c3be"⟩⟩).Made := by
    rintro _ ⟨⟩
    exact .branch "master" true
  have htag : (LockedVersion.paired ⟨.ofTag "v1.2", ⟨""⟩⟩).Made := by
    rintro _ ⟨⟩
    exact .tag "v1.2"
  have hfirst := Lock.Built.addProject (.ofString "example.org/a/") none _ ["."] hbranch .empty rfl
  have hsecond := Lock.Built.addProject (.ofString "example.org/b")
    (some "example.org/fork") _ [] htag
    (hfirst.addPackage (.ofString "example.org/a") "x") rfl
  exact hsecond.sign (some "abc123")

theorem built_bare : bare.Built :=
  .addProject (.ofString "example.org/a") none _ ["."] (by rintro _ ⟨⟩) .empty rfl

end Lossy

open Lossy in
theorem toLock_ofLock_of_built_lossy :
    lock.Built ∧ (ofLock lock).toLock = .ok lock.normal ∧
      (ofLock lock.normal).toLock = .ok lock.normal ∧
      lock.normal.projects.map (·.version) =
        [.paired ⟨.branch "master" false, ⟨"3f4c3be"⟩⟩, .unpaired (.tag "v1.2")] ∧
      bare.Built ∧ ∃ error, (ofLock bare).toLock = .error error := by
  obtain ⟨-, hread⟩ := toLock_ofLock_of_built built
  obtain ⟨hkept, hagain⟩ := hread (by decide +kernel)
  obtain ⟨hrefused, -⟩ := toLock_ofLock_of_built built_bare
  exact ⟨built, hkept, hagain, by decide +kernel, built_bare, hrefused.mpr (by decide)⟩

end LockFile

end Relock
