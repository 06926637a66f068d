import Relock.Import
import Relock.Proofs.Convert.Books
import Relock.Proofs.Files

/-!
# What a failed import leaves behind

An import writes two files, the manifest before the lock, and does not take the first one back when
the second cannot be written. So there is one way for a failed import to change the files:

* `Torn` is the state of the files in which it happens. Everything goes well until the manifest is
  written, but the path of the lock leads nowhere, as a link into a directory that does not exist
  does. Such a link is in nobody's way before.
* `run_of_torn`: then the import fails for the lock, and the manifest stays.
* `files_run_of_failed`: no other failure changes anything.
* `torn_of_failed_run` is both, with all that can be said of the files afterwards. `DanglingLock` is
  a directory in which it happens.
-/

namespace Relock.Import

def manifestContent (m : Manifest) : ByteArray :=
  (ManifestFile.ofManifest m).render.toUTF8

/-- That the lock cannot be written. -/
def lockFault (dir : String) : Fault :=
  .ofResource ("failed to write lockfile: " ++ Path.join dir lockName) .files

/-- An import of `config` will write a manifest at `names`, but no lock. -/
structure Torn (files : Files) (dir : String) (options : ImportOptions) (config : LoadedConfig)
    (names : List String) : Prop where
  wet : options.dryRun = false
  loaded : ∃ tool notices, Tool.detect? files dir = some tool ∧
    tool.load files dir = (.ok config, notices)
  flawless : config.error? = none
  manifest : files.place? (Path.join dir manifestName) = some (.vacant names)
  lock : files.place? (Path.join dir lockName) = none

section

variable {σ : Type} {provider : Provider σ} {files : Files} {dir : String} {options : ImportOptions}
  {session : Session σ}

/-! ## What is in the way -/

theorem contains_of_place?_eq_none {path : String} (h : files.place? path = none) :
    files.contains path = false := by
  unfold Files.contains
  rw [h]

theorem contains_of_vacant {path : String} {names : List String}
    (h : files.place? path = some (.vacant names)) : files.contains path = false := by
  unfold Files.contains
  rw [h]

theorem obstacle?_eq_none_iff (hwet : options.dryRun = false) :
    obstacle? files dir options = none ↔
      files.contains (Path.join dir manifestName) = false ∧
        files.contains (Path.join dir lockName) = false := by
  unfold obstacle? outputPaths
  rw [hwet, if_neg (by simp), List.find?_eq_none]
  simp

/-! ## Writing -/

/-- The manifest stays when the lock cannot be written. -/
theorem finish_of_torn (result : ImportResult) {names : List String}
    (hwet : options.dryRun = false)
    (hmanifest : files.place? (Path.join dir manifestName) = some (.vacant names))
    (hlock : files.place? (Path.join dir lockName) = none) :
    (finish files dir options result session).outcome = .error (.fault (lockFault dir)) ∧
      (finish files dir options result session).files =
        files.put names (.file (manifestContent result.manifest)) := by
  have hvacant := Files.entry?_of_place? hmanifest
  have hfirst := Files.write?_of_vacant hmanifest (ManifestFile.ofManifest result.manifest).render
  have hsecond := Files.write?_put_of_none hvacant hlock
    (ManifestFile.ofManifest result.manifest).render.toUTF8 (LockFile.ofLock result.lock).render
  unfold finish Files.saveManifest Files.saveLock Files.write
  simp only [hwet, hfirst, hsecond]
  exact ⟨rfl, rfl⟩

/-- If writing fails and changes something, the manifest could be written and the lock could not. -/
theorem files_finish_of_failed (result : ImportResult) {error : ImportError}
    (hclear : obstacle? files dir options = none)
    (h : (finish files dir options result session).outcome = .error error) :
    (finish files dir options result session).files = files ∨
      ∃ names, options.dryRun = false ∧
        files.place? (Path.join dir manifestName) = some (.vacant names) ∧
        files.place? (Path.join dir lockName) = none := by
  cases hdry : options.dryRun with
  | true =>
      unfold finish at h
      rw [hdry, if_pos rfl] at h
      exact absurd h (by simp)
  | false =>
      obtain ⟨hmanifest, hlock⟩ := (obstacle?_eq_none_iff hdry).mp hclear
      rcases Files.place?_of_contains_eq_false hmanifest with hnowhere | ⟨names, hmanifest⟩
      · -- the manifest is written first, and where that fails nothing is written
        have hfirst := Files.write?_of_none hnowhere
          (ManifestFile.ofManifest result.manifest).render
        left
        unfold finish Files.saveManifest Files.write
        simp only [hdry, hfirst]
        rfl
      · rcases Files.place?_of_contains_eq_false hlock with hnowhere | ⟨names', hlock⟩
        · exact .inr ⟨names, rfl, hmanifest, hnowhere⟩
        · -- both files can be written, so nothing fails
          have hfirst := Files.write?_of_vacant hmanifest
            (ManifestFile.ofManifest result.manifest).render
          have hsecond := Files.write?_put_of_vacant (Files.entry?_of_place? hmanifest)
            hlock (ManifestFile.ofManifest result.manifest).render.toUTF8
            (LockFile.ofLock result.lock).render
          unfold finish Files.saveManifest Files.saveLock Files.write at h
          simp only [hdry, hfirst, hsecond] at h
          exact absurd h (by simp)

/-! ## The steps before -/

theorem run_eq_load {tool : Tool} (hclear : obstacle? files dir options = none)
    (htool : Tool.detect? files dir = some tool) (provider : Provider σ) (session : Session σ) :
    run provider files dir options session = load provider files dir options tool session := by
  unfold run
  rw [hclear]
  simp only [htool]

theorem load_eq_convert {tool : Tool} {config : LoadedConfig} {notices : List Notice}
    (hload : tool.load files dir = (.ok config, notices)) (options : ImportOptions)
    (provider : Provider σ) (session : Session σ) :
    ∃ session', load provider files dir options tool session =
      convert provider files dir options tool config session' := by
  unfold load
  rw [hload]
  exact ⟨_, rfl⟩

theorem convert_eq_finish {config : LoadedConfig} (hflawless : config.error? = none)
    (files : Files) (dir : String) (options : ImportOptions) (tool : Tool) (provider : Provider σ)
    (session : Session σ) :
    ∃ (k : Converter σ) (manifest : Manifest) (lock : Lock) (k' : Converter σ),
      k.convert provider options.project config options.ignored = (.ok (manifest, lock), k') ∧
      convert provider files dir options tool config session =
        finish files dir options ⟨tool, manifest, lock, k'.skipped⟩ k'.session := by
  obtain ⟨manifest, lock, k', hconvert, -⟩ :=
    Converter.convert_of_error?_eq_none hflawless provider options.project options.ignored
      (.new (session.tell (.status .converting (toString config.records.length ++
        " dependencies for " ++ options.project.text ++ " using " ++ provider.name))))
  refine ⟨_, manifest, lock, k', hconvert, ?_⟩
  unfold convert
  dsimp only
  rw [hconvert]

/-! ## The whole import -/

/-- In a torn state the manifest is written and stays, and the import fails for the lock. -/
theorem run_of_torn {config : LoadedConfig} {names : List String}
    (h : Torn files dir options config names) (provider : Provider σ) (session : Session σ) :
    ∃ (k : Converter σ) (manifest : Manifest) (lock : Lock) (k' : Converter σ),
      k.convert provider options.project config options.ignored = (.ok (manifest, lock), k') ∧
      (run provider files dir options session).outcome = .error (.fault (lockFault dir)) ∧
      (run provider files dir options session).files =
        files.put names (.file (manifestContent manifest)) := by
  obtain ⟨tool, notices, htool, hload⟩ := h.loaded
  have hclear : obstacle? files dir options = none :=
    (obstacle?_eq_none_iff h.wet).mpr
      ⟨contains_of_vacant h.manifest, contains_of_place?_eq_none h.lock⟩
  obtain ⟨session', hconverting⟩ := load_eq_convert hload options provider session
  obtain ⟨k, manifest, lock, k', hconvert, hfinish⟩ :=
    convert_eq_finish h.flawless files dir options tool provider session'
  refine ⟨k, manifest, lock, k', hconvert, ?_⟩
  rw [run_eq_load hclear htool, hconverting, hfinish]
  exact finish_of_torn _ h.wet h.manifest h.lock

/-- An import that fails in any other state changes nothing. -/
theorem files_run_of_failed {error : ImportError}
    (h : (run provider files dir options session).outcome = .error error) :
    (run provider files dir options session).files = files ∨
      ∃ config names, Torn files dir options config names := by
  cases hclear : obstacle? files dir options with
  | some path =>
      left
      unfold run
      rw [hclear]
      rfl
  | none =>
      -- nothing is written before the conversion is done
      cases htool : Tool.detect? files dir with
      | none =>
          left
          unfold run
          rw [hclear]
          simp only [htool]
          rfl
      | some tool =>
          rw [run_eq_load hclear htool] at h ⊢
          rcases hload : tool.load files dir with ⟨fault | config, notices⟩
          · left
            unfold load
            rw [hload]
            rfl
          · obtain ⟨session', hconverting⟩ :=
              load_eq_convert hload options provider session
            rw [hconverting] at h ⊢
            cases hflaw : config.error? with
            | some flaw =>
                left
                unfold convert Converter.convert
                rw [hflaw]
            | none =>
                obtain ⟨k, manifest, lock, k', -, hfinish⟩ :=
                  convert_eq_finish hflaw files dir options tool provider session'
                rw [hfinish] at h ⊢
                rcases files_finish_of_failed _ hclear h with hkept | ⟨names, hwet, hm, hl⟩
                · exact .inl hkept
                · exact .inr ⟨config, names, hwet, ⟨tool, notices, htool, hload⟩, hflaw, hm, hl⟩

/-- An import that fails leaves all files as they were, unless it fails for the lock after the
manifest was written. It does so if and only if the state of the files is a torn one; then the
manifest is complete and new, nothing else is changed, and there still is no lock. -/
theorem torn_of_failed_run {error : ImportError}
    (h : (run provider files dir options session).outcome = .error error) :
    (((run provider files dir options session).files = files ∧
        ∀ config names, ¬ Torn files dir options config names) ∨
      ∃ (config : LoadedConfig) (names : List String) (k : Converter σ) (manifest : Manifest)
          (lock : Lock) (k' : Converter σ),
        Torn files dir options config names ∧
        error = .fault (lockFault dir) ∧
        k.convert provider options.project config options.ignored = (.ok (manifest, lock), k') ∧
        (run provider files dir options session).files =
          files.put names (.file (manifestContent manifest)) ∧
        files.entry? names = none ∧
        Files.entry? (run provider files dir options session).files names =
          some (.file (manifestContent manifest)) ∧
        (∀ other, other ≠ names →
          Files.entry? (run provider files dir options session).files other =
            files.entry? other) ∧
        (run provider files dir options session).files.place? (Path.join dir lockName) = none) := by
  -- a failed run leaves the files alone, but for the one state in which only the lock has no place
  by_cases htorn : ∃ config names, Torn files dir options config names
  · right
    obtain ⟨config, names, htorn⟩ := htorn
    obtain ⟨k, manifest, lock, k', hconvert, houtcome, hfiles⟩ :=
      run_of_torn htorn provider session
    have hvacant := Files.entry?_of_place? htorn.manifest
    have herror : error = .fault (lockFault dir) := by
      rw [houtcome] at h
      exact (Except.error.inj h).symm
    refine ⟨config, names, k, manifest, lock, k', htorn, herror, hconvert, hfiles, hvacant, ?_, ?_,
      ?_⟩
    · rw [hfiles]
      exact Files.entry?_put_self (Files.ne_nil_of_entry?_eq_none hvacant) _
    · intro other hother
      rw [hfiles]
      exact Files.entry?_put_of_ne hother _
    · rw [hfiles, Files.place?_put hvacant, htorn.lock]
      rfl
  · left
    refine ⟨?_, fun config names hstate => htorn ⟨config, names, hstate⟩⟩
    exact (files_run_of_failed h).resolve_right htorn

end

/-! ## A project with one file of metadata -/

/-- A directory `p` in which `vendor.conf` is the only metadata. -/
structure VndrProject (files : Files) (metadata : String) : Prop where
  current : files.current = []
  directory : files.entry? ["p"] = some .directory
  metadata : files.entry? ["p", "vendor.conf"] = some (.file metadata.toUTF8)
  noGodep : files.entry? ["p", "Godeps"] = none
  noGlide : files.entry? ["p", "glide.yaml"] = none

namespace VndrProject

variable {files : Files} {metadata : String} (h : VndrProject files metadata)
include h

/-- Where a path into the project leads. -/
theorem place?_eq_walk {path : String} {parts : List String} (hempty : path.isEmpty = false)
    (habsolute : Path.isAbsolute path = false) (hparts : Path.parts path = "p" :: parts) :
    files.place? path = files.walk Files.maxLinks ["p"] parts := by
  have hidle : ¬ Path.isIdle "p" = true := by decide
  have hup : ¬ "p" = ".." := by decide
  unfold Files.place?
  rw [hempty, if_neg (by simp), habsolute, if_neg (by simp), hparts, h.current]
  exact Files.walk_of_directory hidle hup h.directory

theorem place?_metadata : files.place? (Path.join "p" Vndr.path) =
    some (.file ["p", "vendor.conf"] metadata.toUTF8) := by
  have hidle : ¬ Path.isIdle "vendor.conf" = true := by decide
  have hup : ¬ "vendor.conf" = ".." := by decide
  have hparts : Path.parts (Path.join "p" Vndr.path) = ["p", "vendor.conf"] := by decide
  rw [h.place?_eq_walk (by decide) (by decide) hparts, Files.walk_of_file hidle hup h.metadata]
  rfl

/-- A name in the project that stands for nothing leads to no file. -/
theorem isFile_eq_false {path name : String} {parts : List String} (hempty : path.isEmpty = false)
    (habsolute : Path.isAbsolute path = false) (hparts : Path.parts path = "p" :: name :: parts)
    (hidle : ¬ Path.isIdle name = true) (hup : ¬ name = "..")
    (hnone : files.entry? ["p", name] = none) : files.isFile path = false := by
  unfold Files.isFile
  rw [h.place?_eq_walk hempty habsolute hparts, Files.walk_of_none hidle hup hnone]
  cases parts <;> rfl

theorem detected : Tool.detect? files "p" = some .vndr := by
  have hgodep : Path.parts (Path.join "p" GodepFile.path) = ["p", "Godeps", "Godeps.json"] := by
    decide
  have hglide : Path.parts (Path.join "p" GlideFile.path) = ["p", "glide.yaml"] := by decide
  have hnogodep := h.isFile_eq_false (by decide) (by decide) hgodep (by decide) (by decide)
    h.noGodep
  have hnoglide := h.isFile_eq_false (by decide) (by decide) hglide (by decide) (by decide)
    h.noGlide
  have hvndr : files.isFile (Path.join "p" Vndr.path) = true := by
    unfold Files.isFile
    rw [h.place?_metadata]
  simp [Tool.detect?, Tool.all, Tool.isPresent, Tool.markerPath, hnogodep, hnoglide, hvndr]

theorem loaded : Tool.vndr.load files "p" =
    (.ok ⟨Vndr.records metadata, [], some "p/vendor.conf"⟩,
      [Tool.loading (Path.join "p" Vndr.path)]) := by
  have hread := Files.readText?_of_file h.place?_metadata
  have hpath : Path.join "p" Vndr.path = "p/vendor.conf" := by decide
  unfold Tool.load Tool.markerPath Tool.loadVndr Files.read
  simp only [hread]
  show (Except.ok (LoadedConfig.mk (Vndr.records metadata) []
    (some (Path.join "p" Vndr.path))), _) = _
  rw [hpath]

end VndrProject

namespace DanglingLock

/-- One repository with one tag. -/
def provider : Provider Unit :=
  .ofTable "table"
    [("github.com/sdboyer/deptest",
      [⟨.ofTag "v1.0.0", ⟨"ff2948a2ac8f538c4ecd55962e919d1e13e74baf"⟩⟩])] []

def metadata : String :=
  "github.com/sdboyer/deptest ff2948a2ac8f538c4ecd55962e919d1e13e74baf\n"

/-- A project in which the lock is a link into a directory that does not exist. -/
def files : Files where
  entries := [
    (["p"], .directory),
    (["p", "vendor.conf"], .file metadata.toUTF8),
    (["p", "Gopkg.lock"], .link "missing/Gopkg.lock")]
  current := []

def options : ImportOptions := ⟨.ofString "github.com/golang/notexist", [], false⟩

def config : LoadedConfig where
  records := [.new "github.com/sdboyer/deptest" "ff2948a2ac8f538c4ecd55962e919d1e13e74baf"]
  ignored := []
  file := some "p/vendor.conf"

theorem project : VndrProject files metadata where
  current := rfl
  directory := rfl
  metadata := rfl
  noGodep := rfl
  noGlide := rfl

theorem place?_manifest : files.place? (Path.join "p" manifestName) =
    some (.vacant ["p", "Gopkg.toml"]) := by
  have hidle : ¬ Path.isIdle "Gopkg.toml" = true := by decide
  have hup : ¬ "Gopkg.toml" = ".." := by decide
  have hparts : Path.parts (Path.join "p" manifestName) = ["p", "Gopkg.toml"] := by decide
  rw [project.place?_eq_walk (by decide) (by decide) hparts, Files.walk_of_none hidle hup rfl]
  rfl

/-- The link is followed, but its first name stands for nothing. -/
theorem place?_lock : files.place? (Path.join "p" lockName) = none := by
  have hidle : ¬ Path.isIdle "Gopkg.lock" = true := by decide
  have hup : ¬ "Gopkg.lock" = ".." := by decide
  have hidle' : ¬ Path.isIdle "missing" = true := by decide
  have hup' : ¬ "missing" = ".." := by decide
  have hparts : Path.parts (Path.join "p" lockName) = ["p", "Gopkg.lock"] := by decide
  have htarget : Path.parts "missing/Gopkg.lock" ++ [] = ["missing", "Gopkg.lock"] := by decide
  have habsolute : Path.isAbsolute "missing/Gopkg.lock" = false := by decide
  rw [project.place?_eq_walk (by decide) (by decide) hparts]
  show files.walk (39 + 1) ["p"] ["Gopkg.lock"] = none
  rw [Files.walk_succ_of_link hidle hup rfl, habsolute, htarget]
  exact Files.walk_of_none hidle' hup' rfl

theorem loaded : Tool.vndr.load files "p" =
    (.ok config, [Tool.loading (Path.join "p" Vndr.path)]) := by
  have hrecords : Vndr.records metadata = config.records := by decide +kernel
  rw [project.loaded, hrecords]
  rfl

theorem torn : Torn files "p" options config ["p", "Gopkg.toml"] where
  wet := rfl
  loaded := ⟨.vndr, _, project.detected, loaded⟩
  flawless := by decide
  manifest := place?_manifest
  lock := place?_lock

end DanglingLock

open DanglingLock in
/-- An import that fails may leave a file that was not there. -/
theorem files_run_ne_danglingLock :
    (∃ error, (run provider files "p" options (.start ())).outcome = .error error) ∧
      files.contains "p/Gopkg.toml" = false ∧
      (run provider files "p" options (.start ())).files.contains "p/Gopkg.toml" = true := by
  obtain ⟨k, manifest, lock, k', -, houtcome, hfiles⟩ :=
    run_of_torn torn provider (.start ())
  have hpath : Path.join "p" manifestName = "p/Gopkg.toml" := by decide
  have hplace := place?_manifest
  rw [hpath] at hplace
  refine ⟨⟨_, houtcome⟩, contains_of_vacant hplace, ?_⟩
  unfold Files.contains
  rw [hfiles, Files.place?_put (Files.entry?_of_place? hplace), hplace]
  simp [Place.fill]

open DanglingLock in
theorem torn_of_failed_run_danglingLock :
    (run provider files "p" options (.start ())).outcome = .error (.fault (lockFault "p")) ∧
      (∀ other, other ≠ ["p", "Gopkg.toml"] →
        Files.entry? (run provider files "p" options (.start ())).files other =
          files.entry? other) ∧
      ∃ manifest,
        Files.entry? (run provider files "p" options (.start ())).files ["p", "Gopkg.toml"] =
          some (.file (manifestContent manifest)) := by
  obtain ⟨_, _, _, _, -, houtcome, -⟩ := run_of_torn torn provider (.start ())
  refine ⟨houtcome, ?_⟩
  rcases torn_of_failed_run houtcome with ⟨_, hwhole⟩ |
    ⟨_, names, _, manifest, _, _, htorn, _, _, _, _, hnew, hother, _⟩
  · exact absurd torn (hwhole _ _)
  · have hnames : names = ["p", "Gopkg.toml"] := by
      have hsame := htorn.manifest.symm.trans place?_manifest
      exact Place.vacant.inj (Option.some.inj hsame)
    subst hnames
    exact ⟨hother, manifest, hnew⟩

end Relock.Import
