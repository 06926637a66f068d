import Relock.Proofs.Convert.Books
import Relock.Proofs.Convert.Error
import Relock.Proofs.LockFile
import Relock.Proofs.Resolve.Choice

/-!
# What is persisted is what was resolved

A lock that a conversion made comes back from its file with every root, source, package and revision
in place and in order, and with its digest. Only labels are read anew, since a file keeps their
texts: a branch comes back without the mark of the default branch, and a tag as what it reads as
(`toLock_ofLock_of_convert`). `DefaultBranch` is a lock that does not come back as it was.
-/

namespace Relock

open Journal

namespace Told

variable {σ : Type} {provider : Provider σ} {project : ProjectRoot} {ignored : List String}
  {j : Journal} {manifest : Manifest} {lock : Lock} {skipped : List SkippedRoot}

/-- If every record has a revision, every locked version has one. -/
theorem exists_revision (h : Told provider project ignored j manifest lock skipped)
    (hrecords : ∀ e ∈ j, e.record.revision.isEmpty = false) {p : LockedProject}
    (hp : p ∈ lock.projects) : ∃ r, p.version.revision? = some r ∧ r.text ≠ "" := by
  rw [h.projects] at hp
  obtain ⟨e, he, root, resolution, houtcome, rfl⟩ := mem_projects.mp hp
  have hvalid := h.valid e he
  rw [Item.Valid, houtcome] at hvalid
  -- what is locked was resolved for the revision of the record
  obtain ⟨_, _, s, hresolve⟩ := hvalid
  obtain ⟨versions, _, hlocks⟩ := Resolution.locks_of_resolve hresolve
  exact hlocks.exists_revision (Revision.text_ne_empty_of_isEmpty_eq_false (hrecords e he))

end Told

/-- Records of metadata that is converted have revisions. -/
theorem revision_of_mem_journal {σ : Type} {provider : Provider σ} {project : ProjectRoot}
    {config : LoadedConfig} {ignored : List String} {k : Converter σ} (h : config.error? = none)
    {e : Item} (he : e ∈ k.journal provider project config ignored) :
    e.record.revision.isEmpty = false :=
  (LoadedConfig.error?_eq_none_iff.mp h e.record (Converter.record_mem_of_mem_journal he)).2

/-- A lock that a conversion made comes back from its file with all labels read from their texts.
It comes back as it was if and only if no label is changed by that: tags are what they read as, and
no branch is marked as the default one. -/
theorem toLock_ofLock_of_convert {σ : Type} {provider : Provider σ} {project : ProjectRoot}
    {config : LoadedConfig} {ignored : List String} {k k' : Converter σ} {manifest : Manifest}
    {lock : Lock} (h : k.convert provider project config ignored = (.ok (manifest, lock), k')) :
    (LockFile.ofLock lock).toLock = .ok lock.reread ∧
      ((LockFile.ofLock lock).toLock = .ok lock ↔
        ∀ p ∈ lock.projects, ∀ label ∈ p.version.version?,
          (∃ tag, label = .ofTag tag) ∨ ∃ name, label = .branch name false) := by
  have htold := Converter.told_of_convert h
  have hrecords : ∀ e ∈ k.journal provider project config ignored,
      e.record.revision.isEmpty = false :=
    fun e he => revision_of_mem_journal (Converter.error?_of_convert h) he
  have hreload := LockFile.toLock_ofLock_eq_reread htold.nodup_roots
    (fun p hp => htold.nodup_packages hp) fun p hp => htold.exists_revision hrecords hp
  refine ⟨hreload, ?_⟩
  rw [hreload, Except.ok.injEq, Lock.reread_eq_self_iff]
  simp only [Version.reread_eq_self_iff]

namespace DefaultBranch

/-- A repository without tags, whose default branch is at the recorded revision. -/
def provider : Provider Unit :=
  .ofTable "table"
    [("github.com/sdboyer/deptest",
      [⟨.branch "master" true, ⟨"3f4c3bea144e112a69bbe5d8d01c1b09a544253f"⟩⟩])] []

def project : ProjectRoot := .ofString "github.com/golang/notexist"

def config : LoadedConfig where
  records := [.new "github.com/sdboyer/deptest" "3f4c3bea144e112a69bbe5d8d01c1b09a544253f"]
  ignored := []
  file := none

def done : Conversion Unit :=
  .run provider project config.records (config.ignored ++ []) (.start ())

end DefaultBranch

open DefaultBranch in
/-- The mark of the default branch does not come back. -/
theorem toLock_ofLock_ne_defaultBranch :
    (Converter.new (.start ())).convert provider project config [] =
        (.ok (done.manifest, done.lock), ⟨done.skipped, done.session⟩) ∧
      (LockFile.ofLock done.lock).toLock ≠ .ok done.lock := by
  have hprojects : done.lock.projects =
      [⟨.ofString "github.com/sdboyer/deptest", none,
        .paired ⟨.branch "master" true, ⟨"3f4c3bea144e112a69bbe5d8d01c1b09a544253f"⟩⟩, ["."]⟩] := by
    decide +kernel
  have hreload : (LockFile.ofLock done.lock).toLock = .ok done.lock.reread := by
    refine LockFile.toLock_ofLock_eq_reread ?_ ?_ ?_
    · rw [hprojects]
      decide +kernel
    · rw [hprojects]
      decide +kernel
    · rw [hprojects]
      intro p hp
      rw [List.mem_singleton.mp hp]
      exact ⟨_, rfl, by decide⟩
  refine ⟨Converter.convert_eq_run (by decide) provider project [] _ rfl, ?_⟩
  rw [hreload]
  intro hsame
  have hmark := Lock.reread_eq_self_iff.mp (Except.ok.inj hsame)
  rw [hprojects] at hmark
  exact absurd (hmark _ (List.mem_singleton.mpr rfl) _ rfl) (by decide)

open DefaultBranch in
theorem toLock_ofLock_of_convert_defaultBranch :
    (Converter.new (.start ())).convert provider project config [] =
        (.ok (done.manifest, done.lock), ⟨done.skipped, done.session⟩) ∧
      (LockFile.ofLock done.lock).toLock = .ok done.lock.reread ∧
      done.lock.reread.projects.map (·.version) =
        [.paired ⟨.branch "master" false, ⟨"3f4c3bea144e112a69bbe5d8d01c1b09a544253f"⟩⟩] := by
  have hrun := Converter.convert_eq_run (by decide : config.error? = none) provider project []
    (.new (.start ())) (rfl : _ = done)
  exact ⟨hrun, (toLock_ofLock_of_convert hrun).1, by decide +kernel⟩

end Relock
