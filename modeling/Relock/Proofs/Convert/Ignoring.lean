import Relock.Proofs.Convert.Books
import Relock.Proofs.Root.Segments

/-!
# Ignored packages in the lock

What is ignored is said twice: a record is passed over if its path is an entry as it is written, and
the manifest ignores the entries without the blanks at their ends. So a package that the manifest
ignores can be locked all the same. `spelledOtherwise_of_convert` says when: the entry has blanks at
its ends, or a record writes the path of the package with empty segments or with `.`, which do not
count in packages.
-/

namespace Relock

namespace Told

open Journal

variable {σ : Type} {provider : Provider σ} {project : ProjectRoot} {ignored : List String}
  {j : Journal} {manifest : Manifest} {lock : Lock} {skipped : List SkippedRoot}

/-- A package is locked for a record that is not ignored. -/
theorem exists_record (h : Told provider project ignored j manifest lock skipped)
    {p : LockedProject} (hp : p ∈ lock.projects) {package : String}
    (hpackage : package ∈ p.packages) :
    ∃ e ∈ j, p.root.relativePackage? e.path = some package ∧ e.path ∉ ignored := by
  rw [h.projects] at hp
  rw [packages_of_mem_projects hp, packages, List.mem_eraseDups, List.mem_filterMap] at hpackage
  obtain ⟨e, he, hbrought⟩ := hpackage
  unfold Item.package? at hbrought
  split at hbrought
  · next hroot => exact ⟨e, he, hbrought, ((h.valid e he).of_root? hroot).1.2⟩
  · exact absurd hbrought (by simp)

/-- The manifest ignores the entries without the blanks at their ends. -/
theorem isIgnored_iff (h : Told provider project ignored j manifest lock skipped)
    {package : String} : manifest.isIgnored package = true ↔
      package ≠ "" ∧ ∃ entry ∈ ignored, Text.trim entry = package := by
  rw [Manifest.isIgnored, List.contains_iff_mem, h.ignored, Manifest.mem_ignoreAll]
  simp [Manifest.empty]

end Told

/-- If a locked package is ignored by the manifest, then an entry names it that has blanks at its
ends, or a record of the package is spelled with empty segments or with `.`. -/
theorem spelledOtherwise_of_convert {σ : Type} {provider : Provider σ} {project : ProjectRoot}
    {config : LoadedConfig} {ignored : List String} {k k' : Converter σ} {manifest : Manifest}
    {lock : Lock} (h : k.convert provider project config ignored = (.ok (manifest, lock), k'))
    {p : LockedProject} (hp : p ∈ lock.projects) {package : String}
    (hpackage : package ∈ p.packages)
    (hignored : manifest.isIgnored (p.root.packagePath package) = true) :
    ∃ entry ∈ config.ignored ++ ignored, Text.trim entry = p.root.packagePath package ∧
      (entry ≠ Text.trim entry ∨ ∃ record ∈ config.records,
        p.root.relativePackage? (trimSlashes record.importPath) = some package ∧
          ¬ Plain (trimSlashes record.importPath)) := by
  have htold := Converter.told_of_convert h
  obtain ⟨-, entry, hentry, htrim⟩ := htold.isIgnored_iff.mp hignored
  refine ⟨entry, hentry, htrim, ?_⟩
  by_cases hpadded : entry = Text.trim entry
  · obtain ⟨e, he, hbrought, hkept⟩ := htold.exists_record hp hpackage
    have hrecord : e.record ∈ config.records := by
      have hmap := Conversion.map_record_journal provider project (config.ignored ++ ignored)
        (.start k.session) config.records
      rw [← hmap]
      exact List.mem_map_of_mem he
    refine .inr ⟨e.record, hrecord, hbrought, ?_⟩
    intro hplain
    -- a record that is spelled like the entry would have been passed over
    have hspelled : p.root.packagePath package = e.path :=
      ProjectRoot.packagePath_eq hbrought hplain
    rw [← hspelled, ← htrim, ← hpadded] at hkept
    exact hkept hentry
  · exact .inl hpadded

namespace PaddedEntry

def dep : ProjectRoot := .ofString "github.com/sdboyer/deptest"

def revision : String := "ff2948a2ac8f538c4ecd55962e919d1e13e74baf"

def provider : Provider Unit :=
  .fixed "padded entry" (fun _ _ => .ok [⟨.ofTag "v1.0.0", ⟨revision⟩⟩]) fun _ => .ok true

def project : ProjectRoot := .ofString "github.com/golang/notexist"

/-- A package to be ignored, with blanks around its path. -/
def padded : LoadedConfig where
  records := [.new "github.com/sdboyer/deptest" revision]
  ignored := [" github.com/sdboyer/deptest "]
  file := none

/-- A package to be ignored that is recorded with an empty segment. -/
def doubled : LoadedConfig where
  records := [.new "github.com/sdboyer/deptest//foo" revision]
  ignored := ["github.com/sdboyer/deptest/foo"]
  file := none

def done (config : LoadedConfig) : Conversion Unit :=
  .run provider project config.records (config.ignored ++ []) (.start ())

/-- The lock entry of the repository, with the package in use. -/
def locked (package : String) : LockedProject :=
  ⟨dep, none, .paired ⟨.ofTag "v1.0.0", ⟨revision⟩⟩, [package]⟩

theorem convert_eq_done {config : LoadedConfig} (h : config.error? = none) :
    (Converter.new (.start ())).convert provider project config [] =
      (.ok ((done config).manifest, (done config).lock),
        ⟨(done config).skipped, (done config).session⟩) :=
  Converter.convert_eq_run h provider project [] _ rfl

end PaddedEntry

open PaddedEntry in
/-- Both packages are locked, and the manifest ignores them. -/
theorem exists_locked_ignored_paddedEntry :
    (∃ manifest lock k, (Converter.new (.start ())).convert provider project padded [] =
        (.ok (manifest, lock), k) ∧ locked "." ∈ lock.projects ∧
        manifest.isIgnored (dep.packagePath ".") = true) ∧
    ∃ manifest lock k, (Converter.new (.start ())).convert provider project doubled [] =
        (.ok (manifest, lock), k) ∧ locked "foo" ∈ lock.projects ∧
        manifest.isIgnored (dep.packagePath "foo") = true := by
  refine ⟨⟨_, _, _, convert_eq_done (by decide), ?_, ?_⟩,
    ⟨_, _, _, convert_eq_done (by decide), ?_, ?_⟩⟩
  · decide +kernel
  · decide +kernel
  · decide +kernel
  · decide +kernel

open PaddedEntry in
theorem spelledOtherwise_of_convert_paddedEntry :
    (Converter.new (.start ())).convert provider project padded [] =
        (.ok ((done padded).manifest, (done padded).lock),
          ⟨(done padded).skipped, (done padded).session⟩) ∧
      locked "." ∈ (done padded).lock.projects ∧ "." ∈ (locked ".").packages ∧
      (done padded).manifest.isIgnored (dep.packagePath ".") = true ∧
      ∃ entry ∈ padded.ignored ++ [], Text.trim entry = dep.packagePath "." ∧
        entry ≠ Text.trim entry := by
  have hconvert := @convert_eq_done padded (by decide)
  have hlocked : locked "." ∈ (done padded).lock.projects := by decide +kernel
  have hpackage : "." ∈ (locked ".").packages := by decide
  have hignored : (done padded).manifest.isIgnored ((locked ".").root.packagePath ".") = true := by
    decide +kernel
  refine ⟨hconvert, hlocked, hpackage, hignored, ?_⟩
  obtain ⟨entry, hentry, htrim, hpadded | ⟨record, hrecord, -, hspelled⟩⟩ :=
    spelledOtherwise_of_convert hconvert hlocked hpackage hignored
  · exact ⟨entry, hentry, htrim, hpadded⟩
  · -- the record is spelled as the package is
    have hplain : ∀ record ∈ padded.records, ∀ part ∈
        segments (trimSlashes record.importPath).toList, part ≠ [] ∧ part ≠ ['.'] := by
      decide +kernel
    exact absurd (hplain record hrecord) hspelled

end Relock
