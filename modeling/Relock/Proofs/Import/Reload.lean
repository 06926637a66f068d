import Relock.Proofs.Files.Generated
import Relock.Proofs.Import.Preservation
import Relock.Proofs.ManifestFile

/-!
# What an import has written is loaded again

The manifest that an import saves is loaded as it was, and the lock records its digest. Whether it
can still be loaded when the import is over is another matter: links may lead the paths of manifest
and lock to one place. Then the lock, which is written second, takes the place of the manifest, and
what is loaded as the manifest asks for nothing (`Reloads.together`).

* `LoadsManifest` is that a path leads to a file that is loaded as a manifest.
* `Reloads` is all that can be loaded after an import, and `reloads_run` says that it can.
* In `LinkedLock` the manifest of an import that succeeds is lost.
-/

namespace Relock

namespace Files

variable {f : Files} {path : String}

/-- A path leads to a file from which a manifest is loaded. -/
def LoadsManifest (f : Files) (path : String) (m : Manifest) : Prop :=
  ∃ file, f.loadManifestFile path = .ok file ∧ file.toManifest = .ok m

section

variable {names : List String} {text : String} (h : f.place? path = some (.file names text.toUTF8))
include h

theorem loadManifestFile_of_file {file : ManifestFile}
    (hparse : ManifestFile.parse? text = some file) : f.loadManifestFile path = .ok file := by
  unfold loadManifestFile
  rw [read_of_file h]
  dsimp only [bind, Except.bind]
  rw [hparse]
  rfl

theorem loadLockFile_of_file {file : LockFile} (hparse : LockFile.parse? text = some file) :
    f.loadLockFile path = .ok file := by
  unfold loadLockFile
  rw [read_of_file h]
  dsimp only [bind, Except.bind]
  rw [hparse]
  rfl

end

/-- What was saved as a manifest is loaded as it, if it can be built. -/
theorem loadsManifest_of_file {names : List String} {m : Manifest} (hbuilt : m.Built)
    (h : f.place? path = some (.file names (ManifestFile.ofManifest m).render.toUTF8)) :
    f.LoadsManifest path m :=
  ⟨_, loadManifestFile_of_file h (ManifestFile.parse?_render _),
    ManifestFile.toManifest_ofManifest_iff.mpr hbuilt⟩

/-- What was saved as a lock is loaded as a manifest that asks for nothing. -/
theorem loadsManifest_of_lockFile {names : List String} {l : Lock}
    (h : f.place? path = some (.file names (LockFile.ofLock l).render.toUTF8)) :
    f.LoadsManifest path .empty :=
  ⟨_, loadManifestFile_of_file h (LockFile.parse?_render_asManifest _), rfl⟩

/-- A file is loaded as one manifest only. -/
theorem LoadsManifest.unique {m m' : Manifest} (h : f.LoadsManifest path m)
    (h' : f.LoadsManifest path m') : m = m' := by
  obtain ⟨file, hload, hmanifest⟩ := h
  obtain ⟨file', hload', hmanifest'⟩ := h'
  cases hload.symm.trans hload'
  exact Except.ok.inj (hmanifest.symm.trans hmanifest')

end Files

/-- What a conversion makes of any metadata can be built. -/
theorem Told.built {σ : Type} {provider : Provider σ} {project : ProjectRoot}
    {ignored : List String} {j : Journal} {manifest : Manifest} {lock : Lock}
    {skipped : List SkippedRoot} (h : Told provider project ignored j manifest lock skipped) :
    manifest.Built := by
  have htidy := Manifest.tidy_empty.ignoreAll ignored
  rw [← ManifestFile.toManifest_ofManifest_iff]
  refine ManifestFile.toManifest_ofManifest ⟨?_, ?_⟩
  · rw [h.ignored]
    exact htidy.nodup
  · rw [h.ignored]
    exact htidy.trimmed

namespace Import

/-- What can be loaded after an import that has made some files into others. -/
structure Reloads (files : Files) (dir : String) (result : ImportResult) (files' : Files) :
    Prop where
  built : result.manifest.Built
  /-- The manifest is loaded as it was right after it was saved. -/
  saved : ∃ between, files.saveManifest (Path.join dir manifestName) result.manifest = .ok between ∧
    between.LoadsManifest (Path.join dir manifestName) result.manifest
  /-- The lock file is loaded as it was, with the digest of the manifest. -/
  lock : files'.loadLockFile (Path.join dir lockName) = .ok (LockFile.ofLock result.lock)
  digest : result.lock.inputsDigest = some result.manifest.inputsDigest
  /-- In the end the manifest is loaded as it was, if the lock was written elsewhere. -/
  apart : files.place? (Path.join dir lockName) ≠ files.place? (Path.join dir manifestName) →
    files'.LoadsManifest (Path.join dir manifestName) result.manifest
  /-- If not, it is replaced by the lock, which is loaded as a manifest that asks for nothing. -/
  together : files.place? (Path.join dir lockName) = files.place? (Path.join dir manifestName) →
    files'.loadLockFile (Path.join dir manifestName) = .ok (LockFile.ofLock result.lock) ∧
      files'.LoadsManifest (Path.join dir manifestName) .empty

section

variable {σ : Type} {provider : Provider σ} {files : Files} {dir : String} {options : ImportOptions}
  {session : Session σ} {result : ImportResult}

/-- What is written can be loaded. -/
theorem Written.reloads {names names' : List String} {files' : Files}
    (h : Written files dir result names names' files') (hbuilt : result.manifest.Built)
    (hdigest : result.lock.inputsDigest = some result.manifest.inputsDigest) :
    Reloads files dir result files' where
  built := hbuilt
  saved := by
    refine ⟨files.put names (.file (manifestContent result.manifest)), ?_, ?_⟩
    · unfold Files.saveManifest Files.write
      rw [Files.write?_of_vacant h.manifest]
      rfl
    · exact Files.loadsManifest_of_file hbuilt (Files.place?_put_self h.manifest _)
  lock := Files.loadLockFile_of_file h.place?_lock (LockFile.parse?_render _)
  digest := hdigest
  apart hapart := by
    have hne : names' ≠ names := fun heq => hapart (by rw [h.lock, h.manifest, heq])
    exact Files.loadsManifest_of_file hbuilt (h.place?_manifest hne)
  together htogether := by
    rw [h.lock, h.manifest] at htogether
    have hplace := h.place?_manifest_of_eq (Place.vacant.inj (Option.some.inj htogether))
    exact ⟨Files.loadLockFile_of_file hplace (LockFile.parse?_render _),
      Files.loadsManifest_of_lockFile hplace⟩

/-- Any manifest that can be built comes back from its file. Any import that saves a manifest saves
one that is loaded as it was, and if it succeeds the lock file is loaded with the digest of that
manifest; in the end the manifest is still there, unless the lock was written to the same place. -/
theorem reloads_run (provider : Provider σ) (files : Files) (dir : String)
    (options : ImportOptions) (session : Session σ) :
    (∀ m : Manifest, m.Built → (ManifestFile.ofManifest m).toManifest = .ok m) ∧
      (options.dryRun = false → ∀ result,
        (run provider files dir options session).outcome = .ok result →
        Reloads files dir result (run provider files dir options session).files) ∧
      (∀ config names, Torn files dir options config names →
        ∃ (k : Converter σ) (manifest : Manifest) (lock : Lock) (k' : Converter σ),
          k.convert provider options.project config options.ignored = (.ok (manifest, lock), k') ∧
          manifest.Built ∧ lock.inputsDigest = some manifest.inputsDigest ∧
          (run provider files dir options session).files.LoadsManifest
            (Path.join dir manifestName) manifest) := by
  refine ⟨fun m hm => ManifestFile.toManifest_ofManifest_iff.mpr hm, ?_, ?_⟩
  · intro hwet result houtcome
    obtain ⟨config, k, k', hconvert⟩ := exists_convert_of_run houtcome
    have htold := Converter.told_of_convert hconvert
    obtain ⟨names, names', hwritten⟩ := written_of_run hwet houtcome
    exact hwritten.reloads htold.built htold.digest
  · intro config names htorn
    obtain ⟨k, manifest, lock, k', hconvert, -, hfiles⟩ := run_of_torn htorn provider session
    have htold := Converter.told_of_convert hconvert
    refine ⟨k, manifest, lock, k', hconvert, htold.built, htold.digest, ?_⟩
    rw [hfiles]
    exact Files.loadsManifest_of_file htold.built (Files.place?_put_self htorn.manifest _)

end

open LinkedLock in
/-- An import that succeeds may leave no manifest: where the lock is a link to the manifest, what is
loaded afterwards is not what was imported. -/
theorem not_loadsManifest_linkedLock :
    ∃ result, (run DanglingLock.provider files "p" DanglingLock.options (.start ())).outcome =
        .ok result ∧
      ¬ (run DanglingLock.provider files "p" DanglingLock.options (.start ())).files.LoadsManifest
        (Path.join "p" manifestName) result.manifest := by
  refine ⟨result, outcome_run, fun hloads => ?_⟩
  have htold := Converter.told_of_convert convert_eq_done
  obtain ⟨names, names', hwritten⟩ := written_of_run rfl outcome_run
  have htogether := (hwritten.reloads htold.built htold.digest).together
    (place?_lock.trans place?_manifest.symm)
  have hne : done.manifest ≠ .empty := by decide +kernel
  exact hne (hloads.unique htogether.2)

open LinkedLock in
/-- The manifest is loaded as it was right after it was saved, and the lock is there in the end. -/
theorem reloads_run_linkedLock :
    let ending := run DanglingLock.provider files "p" DanglingLock.options (.start ())
    ending.outcome = .ok result ∧
      (∃ between, files.saveManifest (Path.join "p" manifestName) result.manifest = .ok between ∧
        between.LoadsManifest (Path.join "p" manifestName) result.manifest) ∧
      ending.files.loadLockFile (Path.join "p" lockName) = .ok (LockFile.ofLock result.lock) ∧
      result.lock.inputsDigest = some result.manifest.inputsDigest := by
  obtain ⟨-, hreloads, -⟩ :=
    reloads_run DanglingLock.provider files "p" DanglingLock.options (.start ())
  have h := hreloads rfl result outcome_run
  exact ⟨outcome_run, h.saved, h.lock, h.digest⟩

end Import

end Relock
