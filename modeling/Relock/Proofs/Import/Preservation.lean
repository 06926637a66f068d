import Relock.Proofs.Import

/-!
# What an import leaves alone

An import looks for its two output files before it does anything else, and later writes to where
their paths lead. Links may lead both paths to one place, so the second file written may be the
first one. But what was there when the import began is never written:

* `Files.Keeps` is that nothing was lost or changed between two states of the files.
* `exists_convert_of_run` and `written_of_run` say what an import that succeeds has done, and
  `keeps_of_run` is that any import keeps all there was.
* `Refused` is an import that ends at once, since an output file is in the way. `Later` are the
  states of the files after some moment, with any imports in between and any changes by others that
  remove no output file.
* `preserves_run` puts this together. `LinkedLock` is a directory in which the lock file replaces
  the manifest file, and still the import keeps all there was.
-/

namespace Relock

namespace Files

/-- Everything in `f` is still in `f'`, and the paths that led to it still do. -/
structure Keeps (f f' : Files) : Prop where
  entries : ∀ names entry, f.entry? names = some entry → f'.entry? names = some entry
  places : ∀ path, f.contains path = true → f'.place? path = f.place? path

namespace Keeps

variable {f f' f'' : Files}

theorem refl (f : Files) : f.Keeps f := ⟨fun _ _ h => h, fun _ _ => rfl⟩

theorem contains (h : f.Keeps f') {path : String} (hpath : f.contains path = true) :
    f'.contains path = true := by
  unfold Files.contains
  rw [h.places path hpath]
  exact hpath

theorem trans (h : f.Keeps f') (h' : f'.Keeps f'') : f.Keeps f'' where
  entries names entry hentry := h'.entries names entry (h.entries names entry hentry)
  places path hpath := (h'.places path (h.contains hpath)).trans (h.places path hpath)

/-- A file put where nothing was changes nothing that was there. -/
theorem put {names : List String} (hvacant : f.entry? names = none) (content : ByteArray) :
    f.Keeps (f.put names (.file content)) where
  entries _ _ hentry := entry?_put_of_some hvacant hentry _
  places path hpath := by
    rw [place?_put hvacant]
    unfold Files.contains at hpath
    split at hpath
    · rename_i hplace
      rw [hplace]
      rfl
    · rename_i hplace
      rw [hplace]
      rfl
    · exact absurd hpath (by simp)

end Keeps

/-- What is at a vacant place after something was put there can be replaced. -/
theorem Keeps.put_put {f : Files} {names names' : List String} (hvacant : f.entry? names = none)
    (hvacant' : f.entry? names' = none) (content content' : ByteArray) :
    f.Keeps ((f.put names (.file content)).put names' (.file content')) := by
  by_cases hsame : names' = names
  · rw [hsame, Files.put_put]
    exact .put hvacant content'
  · exact (Keeps.put hvacant content).trans (.put (entry?_put_eq_none hvacant' hsame _) content')

end Files

namespace Import

def lockContent (l : Lock) : ByteArray :=
  (LockFile.ofLock l).render.toUTF8

/-- What an import has written: the manifest where its path leads, and then the lock where its path
leads. -/
structure Written (files : Files) (dir : String) (result : ImportResult)
    (names names' : List String) (files' : Files) : Prop where
  manifest : files.place? (Path.join dir manifestName) = some (.vacant names)
  lock : files.place? (Path.join dir lockName) = some (.vacant names')
  files : files' = (files.put names (.file (manifestContent result.manifest))).put names'
    (.file (lockContent result.lock))

/-- An import that ends at once, since an output file is in the way: nothing is written, the
provider is asked nothing and nothing is told. -/
def Refused {σ : Type} (provider : Provider σ) (files : Files) (dir : String)
    (options : ImportOptions) (session : Session σ) : Prop :=
  ∃ path ∈ outputPaths dir, files.contains path = true ∧
    run provider files dir options session =
      .failed (.own (path ++ " already exists")) files session

/-- The states of the files after they were `files`. Any imports into the directory may come in
between, and any other changes that remove no output file. -/
inductive Later (dir : String) (files : Files) : Files → Prop
  | now : Later dir files files
  | imported {σ : Type} {files' : Files} (provider : Provider σ) (options : ImportOptions)
      (session : Session σ) :
      Later dir files files' → Later dir files (run provider files' dir options session).files
  | changed {files' files'' : Files} :
      Later dir files files' →
      (∀ path ∈ outputPaths dir, files'.contains path = true → files''.contains path = true) →
      Later dir files files''

section

variable {σ : Type} {provider : Provider σ} {files : Files} {dir : String} {options : ImportOptions}
  {session : Session σ} {result : ImportResult}

/-! ## An import that succeeds -/

/-- Both files are written where their paths led before. -/
theorem finish_of_vacant (result : ImportResult) {names names' : List String}
    (hwet : options.dryRun = false)
    (hmanifest : files.place? (Path.join dir manifestName) = some (.vacant names))
    (hlock : files.place? (Path.join dir lockName) = some (.vacant names'))
    (session : Session σ) : (finish files dir options result session).outcome = .ok result ∧
      Written files dir result names names' (finish files dir options result session).files := by
  have hfirst := Files.write?_of_vacant hmanifest (ManifestFile.ofManifest result.manifest).render
  have hsecond := Files.write?_put_of_vacant (Files.entry?_of_place? hmanifest) hlock
    (ManifestFile.ofManifest result.manifest).render.toUTF8 (LockFile.ofLock result.lock).render
  unfold finish Files.saveManifest Files.saveLock Files.write
  simp only [hwet, hfirst, hsecond]
  exact ⟨rfl, hmanifest, hlock, rfl⟩

/-- What is written in the end is the result, if anything is written. -/
theorem written_of_finish {result' : ImportResult} (hclear : obstacle? files dir options = none)
    (h : (finish files dir options result session).outcome = .ok result') :
    result' = result ∧
      (options.dryRun = false → ∃ names names',
        Written files dir result names names' (finish files dir options result session).files) := by
  cases hdry : options.dryRun with
  | true =>
      unfold finish at h
      rw [hdry, if_pos rfl] at h
      exact ⟨(Except.ok.inj h).symm, fun hwet => absurd hwet (by simp)⟩
  | false =>
      obtain ⟨hmanifest, hlock⟩ := (obstacle?_eq_none_iff hdry).mp hclear
      -- nothing is in the way, but a path that leads nowhere cannot be written to either
      rcases Files.place?_of_contains_eq_false hmanifest with hnowhere | ⟨names, hmanifest⟩
      · have hfirst := Files.write?_of_none hnowhere
          (ManifestFile.ofManifest result.manifest).render
        unfold finish Files.saveManifest Files.write at h
        simp only [hdry, hfirst] at h
        exact absurd h (by simp [Ending.failed])
      · rcases Files.place?_of_contains_eq_false hlock with hnowhere | ⟨names', hlock⟩
        · rw [(finish_of_torn result hdry hmanifest hnowhere).1] at h
          exact absurd h (by simp)
        · obtain ⟨houtcome, hwritten⟩ := finish_of_vacant result hdry hmanifest hlock session
          rw [houtcome] at h
          exact ⟨(Except.ok.inj h).symm, fun _ => ⟨names, names', hwritten⟩⟩

/-- An import that succeeds finds nothing in the way, converts some metadata and finishes with what
comes of it. -/
theorem exists_finish_of_run (h : (run provider files dir options session).outcome = .ok result) :
    obstacle? files dir options = none ∧
      ∃ (tool : Tool) (config : LoadedConfig) (k : Converter σ) (manifest : Manifest) (lock : Lock)
          (k' : Converter σ),
        k.convert provider options.project config options.ignored = (.ok (manifest, lock), k') ∧
        run provider files dir options session =
          finish files dir options ⟨tool, manifest, lock, k'.skipped⟩ k'.session := by
  -- whatever stops a run before its files are written is an error, and this run has a result
  cases hclear : obstacle? files dir options with
  | some path =>
      unfold run at h
      rw [hclear] at h
      exact absurd h (by simp [Ending.failed])
  | none =>
      cases htool : Tool.detect? files dir with
      | none =>
          unfold run at h
          rw [hclear] at h
          simp only [htool] at h
          exact absurd h (by simp [Ending.failed])
      | some tool =>
          rw [run_eq_load hclear htool] at h ⊢
          rcases hload : tool.load files dir with ⟨fault | config, notices⟩
          · unfold load at h
            rw [hload] at h
            exact absurd h (by simp [Ending.failed])
          · obtain ⟨session', hconverting⟩ := load_eq_convert hload options provider session
            rw [hconverting] at h ⊢
            cases hflaw : config.error? with
            | some flaw =>
                unfold convert Converter.convert at h
                rw [hflaw] at h
                exact absurd h (by simp)
            | none =>
                obtain ⟨k, manifest, lock, k', hconvert, hfinish⟩ :=
                  convert_eq_finish hflaw files dir options tool provider session'
                exact ⟨rfl, tool, config, k, manifest, lock, k', hconvert, hfinish⟩

/-- The result of an import that succeeds was converted from some metadata. -/
theorem exists_convert_of_run (h : (run provider files dir options session).outcome = .ok result) :
    ∃ (config : LoadedConfig) (k k' : Converter σ),
      k.convert provider options.project config options.ignored =
        (.ok (result.manifest, result.lock), k') := by
  obtain ⟨hclear, tool, config, k, manifest, lock, k', hconvert, hfinish⟩ := exists_finish_of_run h
  rw [hfinish] at h
  obtain ⟨rfl, -⟩ := written_of_finish hclear h
  exact ⟨config, k, k', hconvert⟩

/-- An import that succeeds has written its result, unless it is a dry run. -/
theorem written_of_run (hwet : options.dryRun = false)
    (h : (run provider files dir options session).outcome = .ok result) :
    ∃ names names',
      Written files dir result names names' (run provider files dir options session).files := by
  obtain ⟨hclear, tool, config, k, manifest, lock, k', -, hfinish⟩ := exists_finish_of_run h
  rw [hfinish] at h ⊢
  obtain ⟨rfl, hwritten⟩ := written_of_finish hclear h
  exact hwritten hwet

namespace Written

variable {names names' : List String} {files' : Files}
  (h : Written files dir result names names' files')
include h

theorem keeps : files.Keeps files' := by
  rw [h.files]
  exact .put_put (Files.entry?_of_place? h.manifest) (Files.entry?_of_place? h.lock) _ _

/-- The path of the lock leads to what was written of it. -/
theorem place?_lock :
    files'.place? (Path.join dir lockName) = some (.file names' (lockContent result.lock)) := by
  rw [h.files]
  exact Files.place?_put_put (Files.entry?_of_place? h.manifest) h.lock _ _

/-- The path of the manifest leads to what was written of it, if the lock was written elsewhere. -/
theorem place?_manifest (hne : names' ≠ names) : files'.place? (Path.join dir manifestName) =
    some (.file names (manifestContent result.manifest)) := by
  rw [h.files]
  exact Files.place?_put_put_of_ne h.manifest (Files.entry?_of_place? h.lock) hne _ _

/-- And if it was not, to what was written of the lock. -/
theorem place?_manifest_of_eq (heq : names' = names) : files'.place? (Path.join dir manifestName) =
    some (.file names' (lockContent result.lock)) := by
  rw [h.files]
  exact Files.place?_put_put (Files.entry?_of_place? h.manifest) (heq ▸ h.manifest) _ _

theorem contains : ∀ path ∈ outputPaths dir, files'.contains path = true := by
  intro path hpath
  rcases List.mem_cons.mp hpath with rfl | hpath
  · -- if the lock has replaced the manifest, it is there in its place
    by_cases hsame : names' = names
    · exact Files.contains_of_file (h.place?_manifest_of_eq hsame)
    · exact Files.contains_of_file (h.place?_manifest hsame)
  · rw [List.mem_singleton.mp hpath]
    exact Files.contains_of_file h.place?_lock

end Written

/-! ## Any import -/

theorem files_finish_of_dry (hdry : options.dryRun = true) :
    (finish files dir options result session).files = files := by
  unfold finish
  rw [hdry, if_pos rfl]

theorem files_run_of_dry (hdry : options.dryRun = true) :
    (run provider files dir options session).files = files := by
  cases houtcome : (run provider files dir options session).outcome with
  | ok result =>
      obtain ⟨-, tool, config, k, manifest, lock, k', -, hfinish⟩ := exists_finish_of_run houtcome
      rw [hfinish]
      exact files_finish_of_dry hdry
  | error error =>
      rcases files_run_of_failed houtcome with hsame | ⟨config, names, htorn⟩
      · exact hsame
      · rw [htorn.wet] at hdry
        exact absurd hdry (by simp)

/-- An import changes nothing, or writes a manifest where nothing was, and then perhaps a lock where
nothing was when it began. -/
theorem keeps_run (provider : Provider σ) (files : Files) (dir : String) (options : ImportOptions)
    (session : Session σ) : files.Keeps (run provider files dir options session).files := by
  cases hdry : options.dryRun with
  | true =>
      rw [files_run_of_dry hdry]
      exact .refl files
  | false =>
      cases houtcome : (run provider files dir options session).outcome with
      | ok result =>
          obtain ⟨names, names', hwritten⟩ := written_of_run hdry houtcome
          exact hwritten.keeps
      | error error =>
          rcases files_run_of_failed houtcome with hsame | ⟨config, names, htorn⟩
          · rw [hsame]
            exact .refl files
          · -- the manifest was written, and the lock could not be
            obtain ⟨k, manifest, lock, k', -, -, hfiles⟩ := run_of_torn htorn provider session
            rw [hfiles]
            exact .put (Files.entry?_of_place? htorn.manifest) _

/-! ## Imports one after the other -/

theorem refused_of_contains (hwet : options.dryRun = false)
    (h : ∃ path ∈ outputPaths dir, files.contains path = true) (provider : Provider σ)
    (session : Session σ) : Refused provider files dir options session := by
  have hsome : ((outputPaths dir).find? files.contains).isSome = true := by
    rw [List.find?_isSome]
    exact h
  obtain ⟨path, hfind⟩ := Option.isSome_iff_exists.mp hsome
  refine ⟨path, List.mem_of_find?_eq_some hfind, List.find?_some hfind, ?_⟩
  have hobstacle : obstacle? files dir options = some path := by
    unfold obstacle?
    rw [hwet, if_neg (by simp)]
    exact hfind
  unfold run
  rw [hobstacle]

/-- An output file stays as long as nobody removes it. -/
theorem Later.contains {files' : Files} (h : Later dir files files') {path : String}
    (hpath : path ∈ outputPaths dir) (hthere : files.contains path = true) :
    files'.contains path = true := by
  induction h with
  | now => exact hthere
  | imported provider options session _ ih =>
      exact (keeps_run provider _ dir options session).contains ih
  | changed _ hleft ih => exact hleft path hpath ih

/-- An import changes nothing that was there, and a dry run changes nothing at all. If an output
file is there, any other run ends at once; and so do all that follow one that succeeded, whatever
happens in between, as long as no output file is removed. -/
theorem preserves_run (provider : Provider σ) (files : Files) (dir : String)
    (options : ImportOptions) (session : Session σ) :
    (options.dryRun = true → (run provider files dir options session).files = files) ∧
      files.Keeps (run provider files dir options session).files ∧
      (options.dryRun = false → (∃ path ∈ outputPaths dir, files.contains path = true) →
        Refused provider files dir options session) ∧
      (options.dryRun = false →
        (∃ result, (run provider files dir options session).outcome = .ok result) →
        ∀ (later : Files), Later dir (run provider files dir options session).files later →
        ∀ (τ : Type) (provider' : Provider τ) (options' : ImportOptions) (session' : Session τ),
          options'.dryRun = false → Refused provider' later dir options' session') := by
  refine ⟨files_run_of_dry, keeps_run provider files dir options session, ?_, ?_⟩
  · intro hwet hthere
    exact refused_of_contains hwet hthere provider session
  · rintro hwet ⟨result, houtcome⟩ later hlater τ provider' options' session' hwet'
    obtain ⟨names, names', hwritten⟩ := written_of_run hwet houtcome
    have hfirst : Path.join dir manifestName ∈ outputPaths dir := List.mem_cons_self
    have hthere := hlater.contains hfirst (hwritten.contains _ hfirst)
    exact refused_of_contains hwet' ⟨_, hfirst, hthere⟩ provider' session'

end

namespace LinkedLock

/-- A project in which the lock is a link to the manifest, and neither is there. -/
def files : Files where
  entries := [
    (["p"], .directory),
    (["p", "vendor.conf"], .file DanglingLock.metadata.toUTF8),
    (["p", "Gopkg.lock"], .link "Gopkg.toml")]
  current := []

theorem project : VndrProject files DanglingLock.metadata where
  current := rfl
  directory := rfl
  metadata := rfl
  noGodep := rfl
  noGlide := rfl

theorem place?_manifest : files.place? (Path.join "p" manifestName) =
    some (.vacant ["p", "Gopkg.toml"]) := by
  have hidle : ¬ Path.isIdle "Gopkg.toml" = true := by decide
  have hup : ¬ "Gopkg.toml" = ".." := by decide
  have hparts : Path.parts (Path.join "p" manifestName) = ["p", "Gopkg.toml"] := by decide
  rw [project.place?_eq_walk (by decide) (by decide) hparts, Files.walk_of_none hidle hup rfl]
  rfl

/-- The link is followed to the place of the manifest. -/
theorem place?_lock : files.place? (Path.join "p" lockName) =
    some (.vacant ["p", "Gopkg.toml"]) := by
  have hidle : ¬ Path.isIdle "Gopkg.lock" = true := by decide
  have hup : ¬ "Gopkg.lock" = ".." := by decide
  have hidle' : ¬ Path.isIdle "Gopkg.toml" = true := by decide
  have hup' : ¬ "Gopkg.toml" = ".." := by decide
  have hparts : Path.parts (Path.join "p" lockName) = ["p", "Gopkg.lock"] := by decide
  have htarget : Path.parts "Gopkg.toml" ++ [] = ["Gopkg.toml"] := by decide
  have habsolute : Path.isAbsolute "Gopkg.toml" = false := by decide
  rw [project.place?_eq_walk (by decide) (by decide) hparts]
  show files.walk (39 + 1) ["p"] ["Gopkg.lock"] = _
  rw [Files.walk_succ_of_link hidle hup rfl, habsolute, htarget]
  exact Files.walk_of_none hidle' hup' rfl

def config : LoadedConfig where
  records := Vndr.records DanglingLock.metadata
  ignored := []
  file := some "p/vendor.conf"

/-- The session when the conversion begins. -/
def session : Session Unit :=
  (((Session.start ()).tell (.status .detected ("vndr" ++ " configuration in " ++ "p"))).tellAll
    [Tool.loading (Path.join "p" Vndr.path)]).tell
      (.status .converting (toString config.records.length ++ " dependencies for " ++
        DanglingLock.options.project.text ++ " using " ++ DanglingLock.provider.name))

def done : Conversion Unit :=
  .run DanglingLock.provider DanglingLock.options.project config.records [] session

def result : ImportResult := ⟨.vndr, done.manifest, done.lock, done.skipped⟩

theorem convert_eq_done :
    (Converter.new session).convert DanglingLock.provider DanglingLock.options.project config [] =
      (.ok (done.manifest, done.lock), ⟨done.skipped, done.session⟩) :=
  Converter.convert_eq_run (by decide +kernel) _ _ _ _ rfl

/-- The import of this project succeeds. -/
theorem outcome_run :
    (run DanglingLock.provider files "p" DanglingLock.options (.start ())).outcome =
      .ok result := by
  have hclear : obstacle? files "p" DanglingLock.options = none :=
    (obstacle?_eq_none_iff rfl).mpr
      ⟨contains_of_vacant place?_manifest, contains_of_vacant place?_lock⟩
  rw [run_eq_load hclear project.detected]
  unfold load
  rw [project.loaded]
  show (match (Converter.new session).convert DanglingLock.provider DanglingLock.options.project
      config [] with
    | (.error error, k) => (⟨.error (.conversion error), files, k.session⟩ : Ending Unit)
    | (.ok (manifest, lock), k) => finish files "p" DanglingLock.options
        ⟨.vndr, manifest, lock, k.skipped⟩ k.session).outcome = _
  rw [convert_eq_done]
  exact (finish_of_vacant _ rfl place?_manifest place?_lock _).1

end LinkedLock

open LinkedLock in
/-- After the import of a project whose lock is a link to its manifest the metadata is as it was,
and the next import is refused. -/
theorem preserves_run_linkedLock :
    let ending := run DanglingLock.provider files "p" DanglingLock.options (.start ())
    ending.outcome = .ok result ∧
      Files.entry? ending.files ["p", "vendor.conf"] =
        some (.file DanglingLock.metadata.toUTF8) ∧
      Refused DanglingLock.provider ending.files "p" DanglingLock.options (.start ()) := by
  obtain ⟨-, hkeeps, -, hlater⟩ :=
    preserves_run DanglingLock.provider files "p" DanglingLock.options (.start ())
  refine ⟨outcome_run, hkeeps.entries _ _ rfl, ?_⟩
  exact hlater rfl ⟨result, outcome_run⟩ _ .now Unit DanglingLock.provider DanglingLock.options
    (.start ()) rfl

end Import

end Relock
