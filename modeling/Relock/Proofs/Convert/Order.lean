import Mathlib.Data.List.Perm.Basic
import Relock.Proofs.Convert.Books
import Relock.Proofs.Convert.Error
import Relock.Proofs.Root.Convention
import Relock.Proofs.Source.Steady

/-!
# The order of records matters only within a root

Two lists of the same records, in which the records of each root stand in the same order, convert to
the same, up to the order of the roots. This holds where every root can be told by convention and no
such root contains a different one, for then what the deducer remembers makes no difference.

* `Journal.SameByRoot` says that two journals hold the same items and that those of each root stand
  in the same order; all that a journal tells is then the same up to order.
* **the step** (`Conversion.outcome_congr`): what becomes of a record depends on nothing but
  whether its root was seen.
* **the run** (`Conversion.Settled.journal_filter`): so the items of one root are those of a run over
  the records of that root alone, whatever stands between them.
-/

namespace Relock

/-! ## Journals that tell the same, root by root -/

/-- Lists that hold the same for every key are permutations. -/
theorem perm_of_filter_eq {α κ : Type} [DecidableEq κ] {key : α → κ} {l l' : List α}
    (h : ∀ k, l.filter (key · = k) = l'.filter (key · = k)) : l.Perm l' := by
  classical
  rw [List.perm_iff_count]
  intro a
  have hcount := congrArg (List.count a) (h (key a))
  rwa [List.count_filter (by simp), List.count_filter (by simp)] at hcount

namespace Journal

/-- The journals hold the same items, and those of each root in the same order. -/
structure SameByRoot (j j' : Journal) : Prop where
  perm : j.Perm j'
  within : ∀ root, j.filter (·.root? = some root) = j'.filter (·.root? = some root)

variable {j j' : Journal}

/-- Packages below a root are told by the items of the root. -/
theorem packages_filter (j : Journal) (root : ProjectRoot) :
    packages (j.filter (·.root? = some root)) root = j.packages root := by
  unfold packages
  rw [List.filterMap_filter]
  congr 1
  apply List.filterMap_congr
  intro e _
  unfold Item.package?
  by_cases hroot : e.root? = some root
  · simp [hroot]
  · simp [hroot]

theorem SameByRoot.packages_eq (h : j.SameByRoot j') (root : ProjectRoot) :
    j.packages root = j'.packages root := by
  rw [← packages_filter, h.within, packages_filter]

theorem SameByRoot.projects_perm (h : j.SameByRoot j') : j.projects.Perm j'.projects := by
  have hproject : j.project? = j'.project? := by
    funext e
    unfold project?
    split
    · rw [h.packages_eq]
    · rfl
  unfold projects
  rw [hproject]
  exact h.perm.filterMap _

theorem SameByRoot.skipped_perm (h : j.SameByRoot j') : j.skipped.Perm j'.skipped :=
  h.perm.filterMap _

/-- Of every root the same is asked. -/
theorem SameByRoot.lookup_asked_eq (h : j.SameByRoot j') (hj : j.Orderly) (hj' : j'.Orderly)
    (root : ProjectRoot) : j.asked.lookup root = j'.asked.lookup root := by
  by_cases hresolved : ∃ e ∈ j, ∃ resolution, e.outcome = .first root (.ok resolution)
  · obtain ⟨e, he, resolution, houtcome⟩ := hresolved
    rw [hj.lookup_asked_eq he houtcome, hj'.lookup_asked_eq (h.perm.mem_iff.mp he) houtcome]
  · have hnone : ∀ e ∈ j, ∀ resolution, e.outcome ≠ .first root (.ok resolution) :=
      fun e he resolution houtcome => hresolved ⟨e, he, resolution, houtcome⟩
    have hnone' : ∀ e ∈ j', ∀ resolution, e.outcome ≠ .first root (.ok resolution) :=
      fun e he => hnone e (h.perm.mem_iff.mpr he)
    rw [lookup_asked_eq_none hnone, lookup_asked_eq_none hnone']

end Journal

/-! ## Records with roots by convention -/

/-- The root of a record by convention. -/
def ImportRecord.conventionalRoot? (record : ImportRecord) : Option ProjectRoot :=
  Convention.root? record.importPath

/-- Every record has a root by convention, and none of these roots contains a different one. -/
structure SettledByConvention (records : List ImportRecord) : Prop where
  root : ∀ record ∈ records, record.conventionalRoot?.isSome
  apart : ∀ root ∈ records.filterMap (·.conventionalRoot?),
    ∀ other ∈ records.filterMap (·.conventionalRoot?),
      root.contains other.text = true → root = other

/-- The records of each root stand in the same order in both lists. -/
def SameWithinRoots (records records' : List ImportRecord) : Prop :=
  ∀ record ∈ records,
    records.filter (·.conventionalRoot? = record.conventionalRoot?) =
      records'.filter (·.conventionalRoot? = record.conventionalRoot?)

theorem SettledByConvention.exists_mem {records : List ImportRecord}
    (h : SettledByConvention records) : ∀ record ∈ records,
      ∃ root ∈ records.filterMap (·.conventionalRoot?), record.conventionalRoot? = some root := by
  intro record hrecord
  obtain ⟨root, hroot⟩ := Option.isSome_iff_exists.mp (h.root record hrecord)
  exact ⟨root, List.mem_filterMap.mpr ⟨record, hrecord, hroot⟩, hroot⟩

/-- Roots without a record have the same records too, namely none. -/
theorem SameWithinRoots.filter_eq {records records' : List ImportRecord}
    (h : SameWithinRoots records records') (hperm : records.Perm records') (root : ProjectRoot) :
    records.filter (·.conventionalRoot? = some root) =
      records'.filter (·.conventionalRoot? = some root) := by
  by_cases hsome : ∃ record ∈ records, record.conventionalRoot? = some root
  · obtain ⟨record, hrecord, hroot⟩ := hsome
    rw [← hroot]
    exact h record hrecord
  · have hnone : records.filter (·.conventionalRoot? = some root) = [] := by
      rw [List.filter_eq_nil_iff]
      intro record hrecord hroot
      exact hsome ⟨record, hrecord, of_decide_eq_true hroot⟩
    have hnone' := hperm.filter (·.conventionalRoot? = some root)
    rw [hnone] at hnone' ⊢
    exact (List.nil_perm.mp hnone').symm

/-- Every record has a root by convention and gets no other one. -/
def Journal.Conventional (j : Journal) : Prop :=
  ∀ e ∈ j, ∃ own, e.record.conventionalRoot? = some own ∧ ∀ root, e.root? = some root → root = own

/-- Journals with the same items for every root by convention tell the same. -/
theorem Journal.Conventional.sameByRoot {j j' : Journal} (hj : j.Conventional)
    (hj' : j'.Conventional)
    (h : ∀ root, j.filter (·.record.conventionalRoot? = some root) =
      j'.filter (·.record.conventionalRoot? = some root)) : j.SameByRoot j' where
  perm := by
    have hnone : ∀ j : Journal, j.Conventional →
        j.filter (·.record.conventionalRoot? = none) = [] := by
      intro j hj
      rw [List.filter_eq_nil_iff]
      intro e he hroot
      obtain ⟨own, hown, -⟩ := hj e he
      rw [of_decide_eq_true hroot] at hown
      exact absurd hown (by simp)
    apply @perm_of_filter_eq _ _ _ fun e : Item => e.record.conventionalRoot?
    intro root?
    cases root? with
    | none => rw [hnone j hj, hnone j' hj']
    | some root => exact h root
  within root := by
    -- an item of the root is an item of a record with this root
    have hwithin : ∀ j : Journal, j.Conventional → j.filter (·.root? = some root) =
        (j.filter (·.record.conventionalRoot? = some root)).filter (·.root? = some root) := by
      intro j hj
      rw [List.filter_filter]
      apply List.filter_congr
      intro e he
      obtain ⟨own, hown, hroot⟩ := hj e he
      by_cases hsame : e.root? = some root
      · have hrecord : e.record.conventionalRoot? = some root := by rw [hown, hroot root hsame]
        simp [hsame, hrecord]
      · simp [hsame]
    rw [hwithin j hj, hwithin j' hj', h root]

namespace Conversion

variable {σ : Type} {provider : Provider σ} {project : ProjectRoot} {ignored : List String}
  {given : List ProjectRoot} {c c' : Conversion σ} {record : ImportRecord} {root : ProjectRoot}

/-! ## The step -/

/-- What becomes of a record depends on its root and on whether the root was seen. -/
theorem outcome_congr
    {versions : ProjectRoot → Option String → Except SourceError (List PairedVersion)}
    (htells : provider.TellsVersions versions)
    (hdeduce : (c.deducer.deduce provider (trimSlashes record.importPath) c.session).1 = .ok root)
    (hdeduce' :
      (c'.deducer.deduce provider (trimSlashes record.importPath) c'.session).1 = .ok root)
    (hseen : root ∈ c.seen ↔ root ∈ c'.seen) :
    outcome provider project ignored c record = outcome provider project ignored c' record := by
  unfold outcome
  dsimp only
  rcases hd : c.deducer.deduce provider (trimSlashes record.importPath) c.session with
    ⟨answer, deducer, session⟩
  rcases hd' : c'.deducer.deduce provider (trimSlashes record.importPath) c'.session with
    ⟨answer', deducer', session'⟩
  rw [hd] at hdeduce
  rw [hd'] at hdeduce'
  dsimp only at hdeduce hdeduce'
  rw [hdeduce, hdeduce']
  dsimp only
  rw [resolve_congr htells root record.source record.revision record.label
    (session.tell (resolvingNotice root record)) (session'.tell (resolvingNotice root record))]
  simp only [hseen]

/-- The root of a record that came to have one is the root deduced for it. -/
theorem deduced_of_root?_outcome
    (h : Journal.Item.root? ⟨record, outcome provider project ignored c record⟩ = some root) :
    (c.deducer.deduce provider (trimSlashes record.importPath) c.session).1 = .ok root := by
  unfold outcome at h
  dsimp only at h
  split at h
  · exact absurd h (by simp [Journal.Item.root?])
  · split at h
    · exact absurd h (by simp [Journal.Item.root?])
    · split at h
      · exact absurd h (by simp [Journal.Item.root?])
      · next found _ _ hdeduce =>
        rw [hdeduce]
        split at h
        · exact congrArg Except.ok (Option.some.inj h)
        · exact congrArg Except.ok (Option.some.inj h)

/-- A conversion in order whose deducer was only asked about the given roots by convention. -/
structure Settled (provider : Provider σ) (project : ProjectRoot) (ignored : List String)
    (given : List ProjectRoot) (c : Conversion σ) : Prop where
  books : ∃ j, Books provider project ignored j c
  deducer : c.deducer.Conventional given

namespace Settled

theorem start (session : Session σ) :
    Settled provider project ignored given (Conversion.start session) where
  books := ⟨[], .start provider project ignored session⟩
  deducer := Deducer.conventional_empty given

theorem turn (h : Settled provider project ignored given c) (record : ImportRecord) :
    Turn provider project ignored c record (outcome provider project ignored c record)
      (step provider project ignored c record) := by
  obtain ⟨j, hbooks⟩ := h.books
  exact turn_step provider project ignored c record fun _ => hbooks.seen_of_failed

/-- A step makes at most the root of its record a seen one. -/
theorem seen_step (h : Settled provider project ignored given c) (record : ImportRecord) :
    root ∈ (step provider project ignored c record).seen ↔ root ∈ c.seen ∨
      Journal.Item.root? ⟨record, outcome provider project ignored c record⟩ = some root := by
  obtain ⟨j, hbooks⟩ := h.books
  rw [(hbooks.turn (h.turn record)).seen, hbooks.seen, Journal.roots_concat, List.mem_append,
    Option.mem_toList]

variable (hapart : ∀ root ∈ given, ∀ other ∈ given, root.contains other.text = true → root = other)
include hapart

/-- A record with a given root gets this root, if it gets one. -/
theorem deduce (h : Settled provider project ignored given c)
    (hroot : record.conventionalRoot? = some root) (hgiven : root ∈ given) :
    (c.deducer.deduce provider (trimSlashes record.importPath) c.session).1 = .ok root ∧
      (c.deducer.deduce provider (trimSlashes record.importPath) c.session).2.1.Conventional
        given := by
  have htrimmed : Convention.root? (trimSlashes record.importPath) = some root := by
    rw [Convention.root?_trimSlashes]
    exact hroot
  exact h.deducer.deduce provider hapart htrimmed hgiven c.session

theorem root?_outcome (h : Settled provider project ignored given c)
    (hroot : record.conventionalRoot? = some root) (hgiven : root ∈ given) {other : ProjectRoot}
    (hother : Journal.Item.root? ⟨record, outcome provider project ignored c record⟩ =
      some other) : other = root := by
  have hdeduce := (h.deduce hapart hroot hgiven).1
  rw [deduced_of_root?_outcome hother] at hdeduce
  exact Except.ok.inj hdeduce

theorem step (h : Settled provider project ignored given c)
    (hroot : record.conventionalRoot? = some root) (hgiven : root ∈ given) :
    Settled provider project ignored given (step provider project ignored c record) := by
  obtain ⟨j, hbooks⟩ := h.books
  have hturn := h.turn record
  refine ⟨⟨_, hbooks.turn hturn⟩, ?_⟩
  rcases hturn.deducer with hsame | hasked
  · rw [hsame]
    exact h.deducer
  · rw [hasked]
    exact (h.deduce hapart hroot hgiven).2

/-! ## The run -/

/-- The items of the records of one root are those of a run over these records alone, from any state
that has seen the root if the first one has. -/
theorem journal_filter
    {versions : ProjectRoot → Option String → Except SourceError (List PairedVersion)}
    (htells : provider.TellsVersions versions) (h : Settled provider project ignored given c)
    (h' : Settled provider project ignored given c') (records : List ImportRecord)
    (hgiven : ∀ record ∈ records, ∃ root ∈ given, record.conventionalRoot? = some root)
    (hseen : root ∈ c.seen ↔ root ∈ c'.seen) :
    (journal provider project ignored c records).filter
        (·.record.conventionalRoot? = some root) =
      journal provider project ignored c'
        (records.filter (·.conventionalRoot? = some root)) := by
  induction records generalizing c c' with
  | nil => rfl
  | cons record records ih =>
      obtain ⟨⟨own, hown, hroot⟩, hrest⟩ := List.forall_mem_cons.mp hgiven
      have hnext := h.step hapart hroot hown
      by_cases hsame : own = root
      · subst hsame
        have houtcome : outcome provider project ignored c record =
            outcome provider project ignored c' record :=
          outcome_congr htells (h.deduce hapart hroot hown).1 (h'.deduce hapart hroot hown).1 hseen
        rw [journal, List.filter_cons_of_pos (by simpa using hroot),
          List.filter_cons_of_pos (by simpa using hroot), journal, houtcome]
        have hseen' : own ∈ (Conversion.step provider project ignored c record).seen ↔
            own ∈ (Conversion.step provider project ignored c' record).seen := by
          rw [h.seen_step, h'.seen_step, hseen, houtcome]
        rw [ih hnext (h'.step hapart hroot hown) hrest hseen']
      · -- a record of another root leaves the root as it is
        have hother : record.conventionalRoot? ≠ some root := by simpa [hroot] using hsame
        rw [journal, List.filter_cons_of_neg (by simpa using hother),
          List.filter_cons_of_neg (by simpa using hother)]
        apply ih hnext h' hrest
        rw [h.seen_step, ← hseen, or_iff_left_iff_imp]
        intro hmade
        exact absurd (h.root?_outcome hapart hroot hown hmade) (Ne.symm hsame)

/-- A record gets no other root than its own. -/
theorem conventional_journal (h : Settled provider project ignored given c)
    (records : List ImportRecord)
    (hgiven : ∀ record ∈ records, ∃ root ∈ given, record.conventionalRoot? = some root) :
    (journal provider project ignored c records).Conventional := by
  induction records generalizing c with
  | nil =>
      intro e he
      exact absurd he (by simp [journal])
  | cons record records ih =>
      obtain ⟨⟨own, hown, hrecord⟩, hrest⟩ := List.forall_mem_cons.mp hgiven
      intro e he
      rw [journal] at he
      rcases List.mem_cons.mp he with rfl | hlater
      · exact ⟨own, hrecord, fun root hroot => h.root?_outcome hapart hrecord hown hroot⟩
      · exact ih (h.step hapart hrecord hown) hrest e hlater

end Settled

/-- The journals of both orders tell the same, root by root. -/
theorem sameByRoot_journal
    {versions : ProjectRoot → Option String → Except SourceError (List PairedVersion)}
    (htells : provider.TellsVersions versions) {records records' : List ImportRecord}
    (hperm : records.Perm records') (hwithin : SameWithinRoots records records')
    (hsettled : SettledByConvention records) (session session' : Session σ) :
    (journal provider project ignored (start session) records).SameByRoot
      (journal provider project ignored (start session') records') := by
  have hgiven := hsettled.exists_mem
  have hgiven' : ∀ record ∈ records', ∃ root ∈ records.filterMap (·.conventionalRoot?),
      record.conventionalRoot? = some root :=
    fun record hrecord => hgiven record (hperm.mem_iff.mpr hrecord)
  have hstart : ∀ session : Session σ, Settled provider project ignored
      (records.filterMap (·.conventionalRoot?)) (Conversion.start session) := .start
  apply Journal.Conventional.sameByRoot
    ((hstart session).conventional_journal hsettled.apart records hgiven)
    ((hstart session').conventional_journal hsettled.apart records' hgiven')
  intro root
  rw [(hstart session).journal_filter hsettled.apart htells (hstart session) records hgiven
      Iff.rfl,
    (hstart session').journal_filter hsettled.apart htells (hstart session) records' hgiven'
      Iff.rfl, hwithin.filter_eq hperm]

end Conversion

/-! ## Conversions of both orders -/

/-- Of two conversions of the same records, in orders that differ only between roots, either both
reject the metadata, or both succeed with the same manifest and digest, the same projects and the
same dependencies left out, the last two in whatever order. -/
theorem reordered_of_convert {σ : Type} {provider : Provider σ}
    {versions : ProjectRoot → Option String → Except SourceError (List PairedVersion)}
    (htells : provider.TellsVersions versions) (k k' : Converter σ) (project : ProjectRoot)
    {config config' : LoadedConfig} (ignored : List String)
    (hignored : config.ignored = config'.ignored) (hperm : config.records.Perm config'.records)
    (hwithin : SameWithinRoots config.records config'.records)
    (hsettled : SettledByConvention config.records) :
    (∃ error error', k.convert provider project config ignored = (.error error, k) ∧
      k'.convert provider project config' ignored = (.error error', k')) ∨
    ∃ manifest lock done lock' done',
      k.convert provider project config ignored = (.ok (manifest, lock), done) ∧
      k'.convert provider project config' ignored = (.ok (manifest, lock'), done') ∧
      lock.inputsDigest = lock'.inputsDigest ∧
      lock.projects.Perm lock'.projects ∧
      done.skipped.Perm done'.skipped := by
  -- either order has an incomplete record or none, though the first mistake may be another one
  have hsound : config.error? = none ↔ config'.error? = none := by
    rw [LoadedConfig.error?_eq_none_iff, LoadedConfig.error?_eq_none_iff]
    simp only [hperm.mem_iff]
  cases herror : config.error? with
  | some error =>
      cases herror' : config'.error? with
      | none =>
          rw [hsound.mpr herror'] at herror
          exact absurd herror (by simp)
      | some error' =>
          refine .inl ⟨error, error', ?_, ?_⟩
          · rw [Converter.convert, herror]
          · rw [Converter.convert, herror']
  | none =>
      obtain ⟨manifest, lock, done, hdone, htold⟩ :=
        Converter.convert_of_error?_eq_none herror provider project ignored k
      obtain ⟨manifest', lock', done', hdone', htold'⟩ :=
        Converter.convert_of_error?_eq_none (hsound.mp herror) provider project ignored k'
      have hsame : (k.journal provider project config ignored).SameByRoot
          (k'.journal provider project config' ignored) := by
        unfold Converter.journal
        rw [hignored]
        exact Conversion.sameByRoot_journal htells hperm hwithin hsettled _ _
      -- the constraints are kept by root, so the order of the records does not show in them
      have hmanifest : manifest = manifest' := by
        have hconstraints : manifest.constraints = manifest'.constraints := by
          apply SortedMap.eq_of_lookup?_eq
          intro root
          rw [htold.asked, htold'.asked]
          exact hsame.lookup_asked_eq htold.orderly htold'.orderly root
        have hignoring : manifest.ignored = manifest'.ignored := by
          rw [htold.ignored, htold'.ignored, hignored]
        cases manifest
        cases manifest'
        dsimp only at hconstraints hignoring
        rw [hconstraints, hignoring]
      subst hmanifest
      refine .inr ⟨manifest, lock, done, lock', done', hdone, hdone', ?_, ?_, ?_⟩
      · rw [htold.digest, htold'.digest]
      · rw [htold.projects, htold'.projects]
        exact hsame.projects_perm
      · rw [htold.skipped, htold'.skipped]
        exact hsame.skipped_perm

namespace TwoOrders

def dep : ProjectRoot := .ofString "github.com/x/dep"

def tool : ProjectRoot := .ofString "github.com/x/tool"

def versions (root : ProjectRoot) (_source : Option String) :
    Except SourceError (List PairedVersion) :=
  if root = dep then .ok [⟨.ofTag "v1.0.0", ⟨"ff2948a"⟩⟩]
  else if root = tool then .ok [⟨.ofTag "v2.0.0", ⟨"5c60720"⟩⟩]
  else .error (.notFound root.text)

def provider : Provider Unit :=
  .fixed "two orders" versions fun _ => .ok true

def project : ProjectRoot := .ofString "github.com/x/app"

/-- Records of three roots, one of which has no repository, and of the project itself. -/
def config : LoadedConfig where
  records := [
    .new "github.com/x/dep/foo" "ff2948a", .new "github.com/x/gone" "5c60720",
    .new "github.com/x/app/internal" "5c60720", .new "github.com/x/tool" "5c60720",
    .new "github.com/x/dep" "ff2948a"]
  ignored := []
  file := none

/-- The same records in another order, with those below `dep` as they were. -/
def config' : LoadedConfig where
  records := [
    .new "github.com/x/tool" "5c60720", .new "github.com/x/dep/foo" "ff2948a",
    .new "github.com/x/dep" "ff2948a", .new "github.com/x/app/internal" "5c60720",
    .new "github.com/x/gone" "5c60720"]
  ignored := []
  file := none

def done (config : LoadedConfig) : Conversion Unit :=
  .run provider project config.records (config.ignored ++ []) (.start ())

end TwoOrders

open TwoOrders in
theorem reordered_of_convert_twoOrders :
    provider.TellsVersions versions ∧ config.records.Perm config'.records ∧
      SameWithinRoots config.records config'.records ∧ SettledByConvention config.records ∧
      (done config).lock.projects.map (·.root) = [dep, tool] ∧
      (done config').lock.projects.map (·.root) = [tool, dep] ∧
      (done config).manifest = (done config').manifest ∧
      (done config).lock.projects.Perm (done config').lock.projects := by
  have htells : provider.TellsVersions versions := fun _ _ _ => rfl
  have hignored : config.ignored = config'.ignored := rfl
  have hperm : config.records.Perm config'.records := by decide +kernel
  have hwithin : SameWithinRoots config.records config'.records := by
    unfold SameWithinRoots
    decide +kernel
  have hsettled : SettledByConvention config.records := ⟨by decide +kernel, by decide +kernel⟩
  have hsound : config.error? = none := by decide
  have hsound' : config'.error? = none := by decide
  have hrun : ∀ config : LoadedConfig, config.error? = none →
      (Converter.new (.start ())).convert provider project config [] =
        (.ok ((done config).manifest, (done config).lock),
          ⟨(done config).skipped, (done config).session⟩) :=
    fun config herror => Converter.convert_eq_run herror provider project [] _ rfl
  refine ⟨htells, hperm, hwithin, hsettled, by decide +kernel, by decide +kernel, ?_⟩
  rcases reordered_of_convert htells (.new (.start ())) (.new (.start ())) project [] hignored hperm
    hwithin hsettled with ⟨_, _, herror, _⟩ | ⟨_, _, _, _, _, hdone, hdone', _, hprojects, _⟩
  · rw [hrun config hsound] at herror
    exact absurd herror (by simp)
  · rw [hrun config hsound] at hdone
    rw [hrun config' hsound'] at hdone'
    simp only [Prod.mk.injEq, Except.ok.injEq] at hdone hdone'
    obtain ⟨⟨hmanifest, hlock⟩, -⟩ := hdone
    obtain ⟨⟨hmanifest', hlock'⟩, -⟩ := hdone'
    rw [hmanifest, hmanifest', hlock, hlock']
    exact ⟨rfl, hprojects⟩

end Relock
