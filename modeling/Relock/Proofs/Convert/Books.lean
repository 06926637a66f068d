import Relock.Proofs.Convert.Items

/-!
# The books agree with the journal

`Books` is the invariant of a conversion: at every moment the roots seen and failed, the manifest,
the lock and the dependencies left out are what the journal so far tells of them, and the journal
itself is in order. `Books.turn` is the step, with one lemma on what is entered for each way that a
turn can go, and `Books.foldl` the run. `Told` is what is left of
the invariant when a conversion has ended: its results are what its journal tells
(`told_of_convert`).
-/

namespace Relock

/-! ## The invariant -/

open Journal Conversion

/-- The books of a conversion are what its journal tells. -/
structure Books {σ : Type} (provider : Provider σ) (project : ProjectRoot) (ignored : List String)
    (j : Journal) (c : Conversion σ) : Prop where
  sound : c.deducer.Sound
  orderly : j.Orderly
  valid : ∀ e ∈ j, e.Valid provider project ignored
  seen : ∀ root, root ∈ c.seen ↔ root ∈ j.roots
  failed : ∀ root, root ∈ c.failed ↔ ∃ e ∈ j, ∃ error, e.outcome = .first root (.error error)
  skipped : c.skipped = j.skipped
  projects : c.lock.projects = j.projects
  asked : ∀ root, c.manifest.constraints.lookup? root = j.asked.lookup root
  ignored : c.manifest.ignored = []

namespace Books

variable {σ : Type} {provider : Provider σ} {project : ProjectRoot} {ignored : List String}
  {j : Journal} {c : Conversion σ}

/-- At the start there is nothing to tell. -/
theorem start (provider : Provider σ) (project : ProjectRoot) (ignored : List String)
    (session : Session σ) :
    Books provider project ignored [] (Conversion.start session) where
  sound := Deducer.sound_empty
  orderly := .nil
  valid e he := absurd he (by simp)
  seen root := by simp [Conversion.start, roots]
  failed root := by simp [Conversion.start]
  skipped := rfl
  projects := rfl
  asked root := rfl
  ignored := rfl

/-- Only roots already seen have failed. -/
theorem seen_of_failed (h : Books provider project ignored j c) {root : ProjectRoot}
    (hroot : root ∈ c.failed) : root ∈ c.seen := by
  obtain ⟨e, he, error, houtcome⟩ := (h.failed root).mp hroot
  exact (h.seen root).mpr (mem_roots.mpr ⟨e, he, Item.root?_of_outcome houtcome⟩)

/-- A root that failed has no project. -/
theorem root_ne_of_failed (h : Books provider project ignored j c) {root : ProjectRoot}
    (hroot : root ∈ c.failed) {p : LockedProject} (hp : p ∈ j.projects) : p.root ≠ root := by
  obtain ⟨e, he, error, houtcome⟩ := (h.failed root).mp hroot
  obtain ⟨e', he', root', resolution, houtcome', hproject⟩ := mem_projects.mp hp
  intro heq
  have hroot' : root' = root := by rw [← heq, hproject]
  subst hroot'
  have hsame := h.orderly.eq_of_outcome he he' houtcome houtcome'
  rw [hsame, houtcome'] at houtcome
  exact absurd houtcome (by simp)

/-- A root without records has no project. -/
theorem root_ne_of_fresh (h : Books provider project ignored j c) {root : ProjectRoot}
    (hfresh : root ∉ c.seen) {p : LockedProject} (hp : p ∈ j.projects) : p.root ≠ root :=
  fun heq => hfresh ((h.seen root).mpr (heq ▸ root_mem_roots hp))

/-! ## The step -/

/-- What a deduction in the middle of a run leaves behind and gives. -/
theorem sound_of_deduce (h : Books provider project ignored j c) {path : String}
    {answer : Except ResolveError ProjectRoot} {deducer : Deducer} {session : Session σ}
    (hdeduce : c.deducer.deduce provider (trimSlashes path) c.session =
      (answer, deducer, session)) :
    deducer.Sound ∧ ∀ root, answer = .ok root → root.contains (trimSlashes path) = true := by
  obtain ⟨hroot, hsound⟩ :=
    Deducer.deduce_sound provider h.sound (trimSlashes path) c.session
  rw [hdeduce] at hroot hsound
  rw [trimSlashes_trimSlashes] at hroot
  exact ⟨hsound, hroot⟩

/-- What a turn has to enter into each of the books for one more item of the journal. -/
structure Enters {σ : Type} (provider : Provider σ) (project : ProjectRoot) (ignored : List String)
    (j : Journal) (c : Conversion σ) (e : Item) (c' : Conversion σ) : Prop where
  valid : e.Valid provider project ignored
  sound : c'.deducer.Sound
  /-- Only a root that was not seen is resolved, and later records are of roots that were. -/
  fresh : ∀ root ∈ e.first?, root ∉ c.seen
  later : ∀ root, e.outcome = .later root → root ∈ c.seen
  seen : ∀ root, root ∈ c'.seen ↔ root ∈ c.seen ∨ e.root? = some root
  failed : ∀ root, root ∈ c'.failed ↔
    root ∈ c.failed ∨ ∃ error, e.outcome = .first root (.error error)
  skipped : c'.skipped = c.skipped ++ e.skipped?.toList
  projects : c'.lock.projects = Journal.projects (j ++ [e])
  asked : ∀ root, c'.manifest.constraints.lookup? root =
    (c.manifest.constraints.lookup? root).or (e.asked?.toList.lookup root)
  ignored : c'.manifest.ignored = c.manifest.ignored

theorem concat (h : Books provider project ignored j c) {e : Item} {c' : Conversion σ}
    (hnew : Enters provider project ignored j c e c') :
    Books provider project ignored (j ++ [e]) c' where
  sound := hnew.sound
  orderly := .concat h.orderly
    (fun root hroot => (h.seen root).not.mp (hnew.fresh root hroot))
    (fun root houtcome => (h.seen root).mp (hnew.later root houtcome))
  valid e' he' := by
    rcases List.mem_append.mp he' with hold | hlast
    · exact h.valid e' hold
    · exact List.mem_singleton.mp hlast ▸ hnew.valid
  seen root := by
    rw [hnew.seen, h.seen, roots_concat, List.mem_append, Option.mem_toList]
  failed root := by
    rw [hnew.failed, h.failed]
    simp [or_and_right, exists_or]
  skipped := by rw [hnew.skipped, h.skipped, skipped_concat]
  projects := hnew.projects
  asked root := by rw [hnew.asked, h.asked, asked_concat, List.lookup_append]
  ignored := by rw [hnew.ignored, h.ignored]

/-- An item that locks nothing and brings no package of a locked root leaves the lock alone. -/
theorem projects_eq_concat (h : Books provider project ignored j c) {e : Item}
    (hproject : project? (j ++ [e]) e = none)
    (hroot : ∀ root, e.root? = some root → ∀ p ∈ j.projects, p.root ≠ root) :
    c.lock.projects = Journal.projects (j ++ [e]) := by
  rw [h.projects, projects_concat_of_eq, hproject, Option.toList_none, List.append_nil]
  intro p hp
  rw [packages_concat_of_ne fun heq => hroot p.root heq p hp rfl, packages_of_mem_projects hp]

/-- A root that was seen is not seen anew in a later record of it. -/
theorem mem_seen_iff {record : ImportRecord} {root : ProjectRoot} (hseen : root ∈ c.seen)
    (root' : ProjectRoot) : root' ∈ c.seen ↔
      root' ∈ c.seen ∨ (⟨record, .later root⟩ : Item).root? = some root' := by
  refine ⟨.inl, fun hroot => hroot.elim id fun heq => ?_⟩
  rw [← Option.some.inj heq]
  exact hseen

section

variable {record : ImportRecord} {root : ProjectRoot} {error : ResolveError}
  {resolution : Resolution} {deducer : Deducer} {session session' : Session σ}

/-- A record that is passed over enters nothing. -/
theorem enters_passed (h : Books provider project ignored j c) {e : Item}
    (houtcome : e.outcome = .own ∨ e.outcome = .ignored)
    (hvalid : e.Valid provider project ignored) (notice : Notice) :
    Enters provider project ignored j c e (c.tell notice) := by
  have hroot : e.root? = none := by rcases houtcome with h | h <;> rw [Item.root?, h]
  have hfirst : e.first? = none := by rcases houtcome with h | h <;> rw [Item.first?, h]
  have hskipped : e.skipped? = none := by rcases houtcome with h | h <;> rw [Item.skipped?, h]
  have hasked : e.asked? = none := by rcases houtcome with h | h <;> rw [Item.asked?, h]
  have hother : ∀ root, e.outcome ≠ .later root ∧
      ∀ error, e.outcome ≠ .first root (.error error) := by
    rcases houtcome with h | h <;> simp [h]
  exact {
    valid := hvalid
    sound := h.sound
    fresh := by simp [hfirst]
    later := fun root hlater => absurd hlater (hother root).1
    seen := by simp [Conversion.tell, hroot]
    failed := by simp [Conversion.tell, hother]
    skipped := by simp [Conversion.tell, hskipped]
    projects := by
      refine h.projects_eq_concat ?_ (by simp [hroot])
      rcases houtcome with h | h <;> rw [project?, h]
    asked := by simp [Conversion.tell, hasked]
    ignored := rfl }

/-- A record without a root only enters what is left out. -/
theorem enters_rootless (h : Books provider project ignored j c)
    (hown : project.contains (trimSlashes record.importPath) = false)
    (hignored : trimSlashes record.importPath ∉ ignored)
    (hdeduce : c.deducer.deduce provider (trimSlashes record.importPath) c.session =
      (.error error, deducer, session)) :
    Enters provider project ignored j c ⟨record, .rootless error⟩
      (skip (trimSlashes record.importPath) error { c with deducer, session }) where
  valid := ⟨hown, hignored⟩
  sound := (h.sound_of_deduce hdeduce).1
  fresh := by simp [Item.first?]
  later := by simp
  seen := by simp [skip, Item.root?]
  failed := by simp [skip]
  skipped := by simp [skip, Item.skipped?, Item.path]
  projects := h.projects_eq_concat rfl (by simp [Item.root?])
  asked := by simp [skip, Item.asked?]
  ignored := rfl

/-- A root that cannot be resolved enters itself, as one that failed. -/
theorem enters_refused (h : Books provider project ignored j c)
    (hown : project.contains (trimSlashes record.importPath) = false)
    (hignored : trimSlashes record.importPath ∉ ignored)
    (hdeduce : c.deducer.deduce provider (trimSlashes record.importPath) c.session =
      (.ok root, deducer, session))
    (hfresh : root ∉ c.seen)
    (hresolve : resolve provider root record.source record.revision record.label
      (session.tell (resolvingNotice root record)) = (.error error, session')) :
    Enters provider project ignored j c ⟨record, .first root (.error error)⟩
      (skip root.text error
        { c with
          deducer, session := session', seen := root :: c.seen, failed := root :: c.failed }) where
  valid := ⟨⟨hown, hignored⟩, (h.sound_of_deduce hdeduce).2 root rfl, _, congrArg Prod.fst hresolve⟩
  sound := (h.sound_of_deduce hdeduce).1
  fresh := by simpa [Item.first?] using hfresh
  later := by simp
  seen := by simp [skip, Item.root?, or_comm, eq_comm]
  failed := by simp [skip, or_comm, eq_comm]
  skipped := by simp [skip, Item.skipped?]
  projects := by
    -- a fresh root has no project yet that could get the package
    refine h.projects_eq_concat rfl fun root' hroot p hp => ?_
    rw [← Option.some.inj hroot]
    exact h.root_ne_of_fresh hfresh hp
  asked := by simp [skip, Item.asked?]
  ignored := rfl

/-- A root that is resolved enters its project and what is asked of it. -/
theorem enters_accepted (h : Books provider project ignored j c)
    (hown : project.contains (trimSlashes record.importPath) = false)
    (hignored : trimSlashes record.importPath ∉ ignored)
    (hdeduce : c.deducer.deduce provider (trimSlashes record.importPath) c.session =
      (.ok root, deducer, session))
    (hfresh : root ∉ c.seen)
    (hresolve : resolve provider root record.source record.revision record.label
      (session.tell (resolvingNotice root record)) = (.ok resolution, session')) :
    Enters provider project ignored j c ⟨record, .first root (.ok resolution)⟩
      (accept root (trimSlashes record.importPath) record resolution
        { c with deducer, session := session', seen := root :: c.seen }) := by
  obtain ⟨hsound, hcontains⟩ := h.sound_of_deduce hdeduce
  have hnew : root ∉ j.roots := (h.seen root).not.mp hfresh
  exact {
    valid := ⟨⟨hown, hignored⟩, hcontains root rfl, _, congrArg Prod.fst hresolve⟩
    sound := hsound
    fresh := by simpa [Item.first?] using hfresh
    later := by simp
    seen := by simp [accept, Item.root?, or_comm, eq_comm]
    failed := by simp [accept]
    skipped := by simp [accept, Item.skipped?]
    projects := by
      obtain ⟨package, hpackage⟩ :=
        ProjectRoot.exists_relativePackage_iff.mpr (hcontains root rfl)
      -- a fresh root is in no project, so adding its project cannot be refused
      have hlocked : root ∉ c.lock.projects.map (·.root) := by
        rw [h.projects]
        intro hmem
        obtain ⟨p, hp, heq⟩ := List.mem_map.mp hmem
        exact h.root_ne_of_fresh hfresh hp heq
      have hadd := Lock.addProject?_of_not_mem (l := c.lock)
        (p := ⟨root, record.source, resolution.version, [package]⟩) hlocked
      rw [projects_concat_of_fresh resolution hnew hpackage, ← h.projects]
      simp [accept, lockedProject, hpackage, hadd]
    asked := by
      intro root'
      -- nothing was asked of the root before, and nothing changes for others
      have hnone : c.manifest.constraints.lookup? root = none := by
        rw [h.asked, lookup_asked_eq_none_of_fresh hnew]
      by_cases hroot : root' = root
      · subst hroot
        simp only [accept, lookup?_ask_self hnone, hnone, Item.asked?, Option.none_or]
        cases properties? record resolution <;> simp
      · have hother : ((⟨record, .first root (.ok resolution)⟩ : Item).asked?.toList.lookup
            root') = none := by
          unfold Item.asked?
          cases properties? record resolution <;> simp [hroot]
        simp only [accept, lookup?_ask_of_ne hroot, hother, Option.or_none]
    ignored := by simp [accept] }

/-- A later record of a root that failed enters nothing. -/
theorem enters_lost (h : Books provider project ignored j c) (notice : Notice)
    (hown : project.contains (trimSlashes record.importPath) = false)
    (hignored : trimSlashes record.importPath ∉ ignored)
    (hdeduce : c.deducer.deduce provider (trimSlashes record.importPath) c.session =
      (.ok root, deducer, session))
    (hseen : root ∈ c.seen) (hfailed : root ∈ c.failed) :
    Enters provider project ignored j c ⟨record, .later root⟩
      (tell notice { c with deducer, session }) where
  valid := ⟨⟨hown, hignored⟩, (h.sound_of_deduce hdeduce).2 root rfl⟩
  sound := (h.sound_of_deduce hdeduce).1
  fresh := by simp [Item.first?]
  later := by simpa using hseen
  seen := mem_seen_iff hseen
  failed := by simp [Conversion.tell]
  skipped := by simp [Conversion.tell, Item.skipped?]
  projects := by
    -- a root that failed has no project, whatever is recorded of it later
    refine h.projects_eq_concat rfl fun root' hroot p hp => ?_
    rw [← Option.some.inj hroot]
    exact h.root_ne_of_failed hfailed hp
  asked := by simp [Conversion.tell, Item.asked?]
  ignored := rfl

/-- A later record of a root that was resolved enters its package. -/
theorem enters_joined (h : Books provider project ignored j c)
    (hown : project.contains (trimSlashes record.importPath) = false)
    (hignored : trimSlashes record.importPath ∉ ignored)
    (hdeduce : c.deducer.deduce provider (trimSlashes record.importPath) c.session =
      (.ok root, deducer, session))
    (hseen : root ∈ c.seen) :
    Enters provider project ignored j c ⟨record, .later root⟩
      (join root (trimSlashes record.importPath) { c with deducer, session }) where
  valid := ⟨⟨hown, hignored⟩, (h.sound_of_deduce hdeduce).2 root rfl⟩
  sound := (h.sound_of_deduce hdeduce).1
  fresh := by simp [Item.first?]
  later := by simpa using hseen
  seen := mem_seen_iff hseen
  failed := by simp [join]
  skipped := by simp [join, Item.skipped?]
  projects := by
    obtain ⟨package, hpackage⟩ :=
      ProjectRoot.exists_relativePackage_iff.mpr ((h.sound_of_deduce hdeduce).2 root rfl)
    -- the root stays in its place; only its packages may grow
    rw [projects_concat_of_later h.orderly.nodup_projects hpackage, ← h.projects]
    simp [join, hpackage, Lock.addPackage]
  asked := by simp [join, Item.asked?]
  ignored := rfl

end

/-- A turn keeps the books right. -/
theorem turn (h : Books provider project ignored j c) {record : ImportRecord} {outcome : Outcome}
    {c' : Conversion σ} (hturn : Turn provider project ignored c record outcome c') :
    Books provider project ignored (j ++ [⟨record, outcome⟩]) c' := by
  refine h.concat ?_
  cases hturn with
  | own notice hown =>
      refine h.enters_passed (.inl rfl) ?_ notice
      exact hown
  | ignored notice hown hignored =>
      refine h.enters_passed (.inr rfl) ?_ notice
      exact ⟨hown, hignored⟩
  | rootless error deducer session hown hignored hdeduce =>
      exact h.enters_rootless hown hignored hdeduce
  | refused root error deducer session session' hown hignored hdeduce hfresh hresolve =>
      exact h.enters_refused hown hignored hdeduce hfresh hresolve
  | accepted root resolution deducer session session' hown hignored hdeduce hfresh hresolve =>
      exact h.enters_accepted hown hignored hdeduce hfresh hresolve
  | lost root deducer session notice hown hignored hdeduce hseen hfailed =>
      exact h.enters_lost notice hown hignored hdeduce hseen hfailed
  | joined root deducer session hown hignored hdeduce hseen =>
      exact h.enters_joined hown hignored hdeduce hseen

/-! ## The run -/

/-- A run keeps the books right. -/
theorem foldl (h : Books provider project ignored j c) (records : List ImportRecord) :
    Books provider project ignored (j ++ Conversion.journal provider project ignored c records)
      (records.foldl (step provider project ignored) c) := by
  -- on the records that are left; the books of those before are in `j`
  induction records generalizing j c with
  | nil =>
      rw [Conversion.journal, List.append_nil]
      exact h
  | cons record records ih =>
      have hturn := turn_step provider project ignored c record fun _ => h.seen_of_failed
      rw [Conversion.journal, List.foldl_cons, List.append_cons]
      exact ih (h.turn hturn)

end Books

/-! ## The results -/

/-- The results of a conversion are what its journal tells. -/
structure Told {σ : Type} (provider : Provider σ) (project : ProjectRoot) (ignored : List String)
    (j : Journal) (manifest : Manifest) (lock : Lock) (skipped : List SkippedRoot) : Prop where
  orderly : j.Orderly
  valid : ∀ e ∈ j, e.Valid provider project ignored
  skipped : skipped = j.skipped
  projects : lock.projects = j.projects
  digest : lock.inputsDigest = some manifest.inputsDigest
  asked : ∀ root, manifest.constraints.lookup? root = j.asked.lookup root
  ignored : manifest.ignored = (Manifest.empty.ignoreAll ignored).ignored

namespace Told

variable {σ : Type} {provider : Provider σ} {project : ProjectRoot} {ignored : List String}
  {j : Journal} {manifest : Manifest} {lock : Lock} {skipped : List SkippedRoot}

theorem nodup_roots (h : Told provider project ignored j manifest lock skipped) :
    (lock.projects.map (·.root)).Nodup := by
  rw [h.projects]
  exact h.orderly.nodup_projects

theorem nodup_packages (h : Told provider project ignored j manifest lock skipped)
    {p : LockedProject} (hp : p ∈ lock.projects) : p.packages.Nodup := by
  rw [h.projects] at hp
  rw [packages_of_mem_projects hp]
  exact nodup_eraseDups _

end Told

namespace Conversion

variable {σ : Type} {provider : Provider σ} {project : ProjectRoot} {ignored : List String}

/-- Ignoring packages only changes the manifest. -/
theorem exists_foldl_ignore (c : Conversion σ) (packages : List String) :
    ∃ session, packages.foldl ignore c =
      { c with manifest := c.manifest.ignoreAll packages, session } := by
  induction packages generalizing c with
  | nil => exact ⟨c.session, rfl⟩
  | cons package packages ih =>
      have hstep : ∃ session, c.ignore package =
          { c with manifest := (c.manifest.ignore? package).getD c.manifest, session } := by
        unfold ignore
        cases h : c.manifest.ignore? package with
        | none => exact ⟨c.session, rfl⟩
        | some manifest => exact ⟨_, rfl⟩
      obtain ⟨session, hstep⟩ := hstep
      obtain ⟨session', hrest⟩ := ih (c.ignore package)
      refine ⟨session', ?_⟩
      rw [List.foldl_cons, hrest, hstep, Manifest.ignoreAll_cons]

theorem exists_finish (c : Conversion σ) (packages : List String) :
    ∃ session, c.finish packages =
      { c with
        manifest := c.manifest.ignoreAll packages
        lock := ⟨c.lock.projects, some (c.manifest.ignoreAll packages).inputsDigest⟩
        session } := by
  obtain ⟨session, hignore⟩ := exists_foldl_ignore c packages
  refine ⟨session, ?_⟩
  unfold finish
  rw [hignore]

/-- A conversion tells its results in its journal. -/
theorem told_run (records : List ImportRecord) (session : Session σ) :
    Told provider project ignored (journal provider project ignored (start session) records)
      (run provider project records ignored session).manifest
      (run provider project records ignored session).lock
      (run provider project records ignored session).skipped := by
  have h := (Books.start provider project ignored session).foldl records
  rw [List.nil_append] at h
  obtain ⟨session', hfinish⟩ := exists_finish
    (records.foldl (step provider project ignored) (start session)) ignored
  unfold run
  rw [hfinish]
  exact {
    orderly := h.orderly
    valid := h.valid
    skipped := h.skipped
    projects := h.projects
    digest := rfl
    asked := fun root => by
      rw [Manifest.constraints_ignoreAll]
      exact h.asked root
    ignored := Manifest.ignored_ignoreAll_congr h.ignored ignored }

end Conversion

namespace Converter

variable {σ : Type} {provider : Provider σ} {project : ProjectRoot} {config : LoadedConfig}
  {ignored : List String} {k k' : Converter σ} {manifest : Manifest} {lock : Lock}

/-- The journal of a whole conversion. -/
def journal (provider : Provider σ) (project : ProjectRoot) (config : LoadedConfig)
    (ignored : List String) (k : Converter σ) : Journal :=
  Conversion.journal provider project (config.ignored ++ ignored) (.start k.session) config.records

theorem record_mem_of_mem_journal {e : Journal.Item}
    (h : e ∈ k.journal provider project config ignored) : e.record ∈ config.records := by
  rw [← Conversion.map_record_journal provider project (config.ignored ++ ignored)
    (.start k.session) config.records]
  exact List.mem_map_of_mem h

theorem convert_eq_run (h : config.error? = none) (provider : Provider σ) (project : ProjectRoot)
    (ignored : List String) (k : Converter σ) {done : Conversion σ}
    (hdone : Conversion.run provider project config.records (config.ignored ++ ignored) k.session =
      done) :
    k.convert provider project config ignored =
      (.ok (done.manifest, done.lock), ⟨done.skipped, done.session⟩) := by
  unfold convert
  rw [h, hdone]

/-- Metadata that can be converted is converted. -/
theorem convert_of_error?_eq_none (h : config.error? = none) (provider : Provider σ)
    (project : ProjectRoot) (ignored : List String) (k : Converter σ) :
    ∃ manifest lock k', k.convert provider project config ignored = (.ok (manifest, lock), k') ∧
      Told provider project (config.ignored ++ ignored) (k.journal provider project config ignored)
        manifest lock k'.skipped := by
  exact ⟨_, _, _, convert_eq_run h provider project ignored k rfl,
    Conversion.told_run config.records k.session⟩

/-- Metadata that is converted has no mistake. -/
theorem error?_of_convert
    (h : k.convert provider project config ignored = (.ok (manifest, lock), k')) :
    config.error? = none := by
  unfold convert at h
  split at h
  · exact absurd h (by simp)
  · next herror => exact herror

/-- A conversion that succeeds tells its results in its journal. -/
theorem told_of_convert
    (h : k.convert provider project config ignored = (.ok (manifest, lock), k')) :
    Told provider project (config.ignored ++ ignored) (k.journal provider project config ignored)
      manifest lock k'.skipped := by
  obtain ⟨_, _, _, hrun, htold⟩ :=
    convert_of_error?_eq_none (error?_of_convert h) provider project ignored k
  rw [h] at hrun
  cases hrun
  exact htold

end Converter

end Relock
