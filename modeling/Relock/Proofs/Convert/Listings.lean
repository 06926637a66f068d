import Relock.Proofs.Convert.Books

/-!
# Versions are listed once for each root

Listing the versions of a repository is what takes time, so a conversion does it once for each root:
for the first record of the root and with the source of that record, whatever comes of it.

* `Session.listings` are the questions for versions among all questions of a run, and
  `Conversion.deductions` the roots that are deduced in it;
* **the step** (`Conversion.Turn.listings`): only the turn of the first record of a root lists
  versions, those of the root;
* **the run** (`Books.listings_foldl`): so the listings of a run are told by its journal;
* `listedOnce_convert` compares them with the roots deduced, the lock and the roots that failed.
-/

namespace Relock

/-! ## Questions for versions -/

/-- The root and the source of a question for versions. -/
def Question.listing? : Question → Option (ProjectRoot × Option String)
  | .versions root source => some (root, source)
  | .existence _ => none

/-- The questions for versions that were asked in a run, in order. -/
def Session.listings {σ : Type} (s : Session σ) : List (ProjectRoot × Option String) :=
  s.questions.filterMap Question.listing?

section Sessions

variable {σ : Type} (provider : Provider σ)

theorem Deducer.listings_probe (candidates : List ProjectRoot) (s : Session σ) :
    (probe provider candidates s).2.listings = s.listings := by
  induction candidates generalizing s with
  | nil => rfl
  | cons candidate rest ih =>
      have hasked : (s.sourceExists provider candidate).2.listings = s.listings := by
        simp [Session.listings, Session.sourceExists, Question.listing?]
      unfold probe
      rcases hexists : s.sourceExists provider candidate with ⟨error | found, s'⟩
      · rw [hexists] at hasked
        exact hasked
      · rw [hexists] at hasked
        cases found with
        | true => exact hasked
        | false => exact (ih s').trans hasked

theorem Deducer.listings_search (path : String) (s : Session σ) :
    (search provider path s).2.listings = s.listings := by
  unfold search
  split
  · rfl
  · exact listings_probe provider _ s

theorem Deducer.listings_deduce (d : Deducer) (path : String) (s : Session σ) :
    (d.deduce provider path s).2.2.listings = s.listings := by
  cases hanswer : d.answers.lookup (trimSlashes path) with
  | some root? => rw [deduce_of_answered hanswer]
  | none =>
      cases hroots : d.roots.find? (·.contains (trimSlashes path)) with
      | some root => rw [deduce_of_covered hanswer hroots]
      | none =>
          have hsearch := listings_search provider (trimSlashes path) s
          rw [deduce_of_new hanswer hroots]
          unfold find
          rcases hfound : search provider (trimSlashes path) s with ⟨error | _ | root, s'⟩
          all_goals
            rw [hfound] at hsearch
            exact hsearch

theorem listings_resolve (root : ProjectRoot) (source : Option String) (revision : Revision)
    (label : Option String) (s : Session σ) :
    (resolve provider root source revision label s).2.listings =
      s.listings ++ [(root, source)] := by
  have hlisted : (s.listVersions provider root source).2.listings =
      s.listings ++ [(root, source)] := by
    simp [Session.listings, Session.listVersions, Question.listing?]
  unfold resolve
  rcases hlist : s.listVersions provider root source with ⟨error | versions, s'⟩
  · rw [hlist] at hlisted
    exact hlisted
  · rw [hlist] at hlisted
    exact hlisted

end Sessions

/-! ## Roots and listings told by a journal -/

namespace Journal

/-- The root that was deduced for the record, with the source of the record. -/
def Item.deduction? (e : Item) : Option (ProjectRoot × Option String) :=
  e.root?.map fun root => (root, e.record.source)

/-- The listing in the turn of the record. -/
def Item.listing? (e : Item) : Option (ProjectRoot × Option String) :=
  e.first?.map fun root => (root, e.record.source)

/-- The root that was resolved in the turn of the record. -/
def Item.accepted? (e : Item) : Option ProjectRoot :=
  match e.outcome with
  | .first root (.ok _) => some root
  | _ => none

/-- The root that could not be resolved in the turn of the record. -/
def Item.refused? (e : Item) : Option ProjectRoot :=
  match e.outcome with
  | .first root (.error _) => some root
  | _ => none

variable {j : Journal}

theorem map_fst_deductions (j : Journal) :
    (j.filterMap Item.deduction?).map (·.1) = j.roots := by
  rw [List.map_filterMap, roots]
  refine List.filterMap_congr fun e _ => ?_
  unfold Item.deduction?
  cases e.root? <;> rfl

theorem map_fst_listings (j : Journal) :
    (j.filterMap Item.listing?).map (·.1) = j.filterMap Item.first? := by
  rw [List.map_filterMap]
  refine List.filterMap_congr fun e _ => ?_
  unfold Item.listing?
  cases e.first? <;> rfl

/-- The source that a root comes up with first is that of its first record. -/
theorem lookup_deductions (j : Journal) (root : ProjectRoot) :
    (j.filterMap Item.deduction?).lookup root = (j.firstOf? root).map (·.record.source) := by
  unfold firstOf?
  induction j with
  | nil => rfl
  | cons e j ih =>
      cases hroot : e.root? with
      | none => simp [Item.deduction?, hroot, ih]
      | some found =>
          by_cases hsame : found = root
          · simp [Item.deduction?, hroot, hsame]
          · have hother : (root == found) = false := by simpa using Ne.symm hsame
            simp [Item.deduction?, hroot, hsame, List.lookup_cons, hother, ih]

theorem first?_perm (j : Journal) :
    (j.filterMap Item.first?).Perm (j.filterMap Item.accepted? ++ j.filterMap Item.refused?) := by
  induction j with
  | nil => exact .nil
  | cons e j ih =>
      obtain ⟨record, outcome⟩ := e
      cases outcome with
      | own => exact ih
      | ignored => exact ih
      | rootless error => exact ih
      | later root => exact ih
      | first root result =>
          cases result with
          | ok resolution => exact ih.cons root
          | error error => exact (ih.cons root).trans List.perm_middle.symm

theorem map_root_projects (j : Journal) :
    j.projects.map (·.root) = j.filterMap Item.accepted? := by
  rw [projects, List.map_filterMap]
  refine List.filterMap_congr fun e _ => ?_
  unfold project? Item.accepted?
  rcases e.outcome with _ | _ | _ | ⟨root, _ | _⟩ | _ <;> rfl

end Journal

/-! ## The step and the run -/

namespace Conversion

variable {σ : Type} {provider : Provider σ} {project : ProjectRoot} {ignored : List String}

/-- The turn of the first record of a root lists the versions of the root, and no other turn lists
any. -/
theorem Turn.listings {c c' : Conversion σ} {record : ImportRecord} {outcome : Outcome}
    (h : Turn provider project ignored c record outcome c') :
    c'.session.listings =
      c.session.listings ++ (Journal.Item.listing? ⟨record, outcome⟩).toList := by
  have hdeduced := c.deducer.listings_deduce provider (trimSlashes record.importPath) c.session
  -- the notice before a resolution asks nothing
  have hresolved : ∀ root (session : Session σ), session.listings = c.session.listings →
      (resolve provider root record.source record.revision record.label
        (session.tell (resolvingNotice root record))).2.listings =
          c.session.listings ++ [(root, record.source)] := by
    intro root session hsession
    rw [listings_resolve, ← hsession]
    rfl
  cases h with
  | own => exact (List.append_nil _).symm
  | ignored => exact (List.append_nil _).symm
  | rootless error deducer session hown hignored hdeduce =>
      rw [hdeduce] at hdeduced
      exact hdeduced.trans (List.append_nil _).symm
  | refused root error deducer session session' hown hignored hdeduce hfresh hresolve =>
      rw [hdeduce] at hdeduced
      have hlisted := hresolved root session hdeduced
      rw [hresolve] at hlisted
      exact hlisted
  | accepted root resolution deducer session session' hown hignored hdeduce hfresh hresolve =>
      rw [hdeduce] at hdeduced
      have hlisted := hresolved root session hdeduced
      rw [hresolve] at hlisted
      exact hlisted
  | lost root deducer session notice hown hignored hdeduce hseen hfailed =>
      rw [hdeduce] at hdeduced
      exact hdeduced.trans (List.append_nil _).symm
  | joined root deducer session hown hignored hdeduce hseen hfailed =>
      rw [hdeduce] at hdeduced
      exact hdeduced.trans (List.append_nil _).symm

theorem Turn.failed {c c' : Conversion σ} {record : ImportRecord} {outcome : Outcome}
    (h : Turn provider project ignored c record outcome c') :
    c'.failed = (Journal.Item.refused? ⟨record, outcome⟩).toList ++ c.failed := by
  cases h <;> rfl

/-- The root that is deduced for a record, with the source of the record; none for a record of the
project itself and for an ignored one. -/
def deduction? (provider : Provider σ) (project : ProjectRoot) (ignored : List String)
    (c : Conversion σ) (record : ImportRecord) : Option (ProjectRoot × Option String) :=
  let path := trimSlashes record.importPath
  if project.contains path then none
  else if path ∈ ignored then none
  else
    match (c.deducer.deduce provider path c.session).1 with
    | .ok root => some (root, record.source)
    | .error _ => none

/-- The roots that are deduced for the records still to come, record by record. -/
def deductions (provider : Provider σ) (project : ProjectRoot) (ignored : List String) :
    Conversion σ → List ImportRecord → List (ProjectRoot × Option String)
  | _, [] => []
  | c, record :: records =>
    (deduction? provider project ignored c record).toList ++
      deductions provider project ignored (step provider project ignored c record) records

theorem deduction?_outcome (c : Conversion σ) (record : ImportRecord) :
    Journal.Item.deduction? ⟨record, outcome provider project ignored c record⟩ =
      deduction? provider project ignored c record := by
  unfold Journal.Item.deduction? Journal.Item.root? outcome deduction?
  dsimp only
  split_ifs
  · rfl
  · rfl
  · rcases c.deducer.deduce provider (trimSlashes record.importPath) c.session with
      ⟨error | root, deducer, session⟩
    · rfl
    · dsimp only
      split_ifs <;> rfl

theorem deductions_eq (c : Conversion σ) (records : List ImportRecord) :
    deductions provider project ignored c records =
      (journal provider project ignored c records).filterMap Journal.Item.deduction? := by
  induction records generalizing c with
  | nil => rfl
  | cons record records ih =>
      rw [deductions, journal, ih, List.filterMap_cons, deduction?_outcome]
      cases deduction? provider project ignored c record <;> rfl

end Conversion

namespace Books

open Conversion

variable {σ : Type} {provider : Provider σ} {project : ProjectRoot} {ignored : List String}
  {j : Journal} {c : Conversion σ}

/-- The journal tells which roots are listed and which fail. -/
theorem listings_foldl (h : Books provider project ignored j c) (records : List ImportRecord) :
    (records.foldl (step provider project ignored) c).session.listings =
        c.session.listings ++
          (journal provider project ignored c records).filterMap Journal.Item.listing? ∧
      (records.foldl (step provider project ignored) c).failed =
        ((journal provider project ignored c records).filterMap
          Journal.Item.refused?).reverse ++ c.failed := by
  induction records generalizing j c with
  | nil => exact ⟨(List.append_nil _).symm, rfl⟩
  | cons record records ih =>
      have hturn := turn_step provider project ignored c record fun _ => h.seen_of_failed
      obtain ⟨hlistings, hfailed⟩ := ih (h.turn hturn)
      rw [List.foldl_cons, journal, hlistings, hfailed, hturn.listings, hturn.failed,
        List.filterMap_cons, List.filterMap_cons]
      constructor
      · cases Journal.Item.listing? ⟨record, outcome provider project ignored c record⟩ <;> simp
      · cases Journal.Item.refused? ⟨record, outcome provider project ignored c record⟩ <;> simp

end Books

/-! ## Listings of a whole conversion -/

namespace Conversion

variable {σ : Type}

theorem listings_finish (c : Conversion σ) (packages : List String) :
    (c.finish packages).session.listings = c.session.listings ∧
      (c.finish packages).failed = c.failed := by
  have hignore : ∀ c : Conversion σ,
      (packages.foldl ignore c).session.questions = c.session.questions ∧
        (packages.foldl ignore c).failed = c.failed := by
    induction packages with
    | nil => exact fun c => ⟨rfl, rfl⟩
    | cons package packages ih =>
        intro c
        have hstep : (c.ignore package).session.questions = c.session.questions ∧
            (c.ignore package).failed = c.failed := by
          unfold ignore
          split <;> exact ⟨rfl, rfl⟩
        rw [List.foldl_cons, (ih _).1, (ih _).2]
        exact hstep
  exact ⟨congrArg (List.filterMap Question.listing?) (hignore c).1, (hignore c).2⟩

/-- The journal of a run tells what it lists and which roots fail. -/
theorem listings_run (provider : Provider σ) (project : ProjectRoot) (ignored : List String)
    (records : List ImportRecord) (session : Session σ) :
    (run provider project records ignored session).session.listings = session.listings ++
        (journal provider project ignored (start session) records).filterMap
          Journal.Item.listing? ∧
      (run provider project records ignored session).failed =
        ((journal provider project ignored (start session) records).filterMap
          Journal.Item.refused?).reverse := by
  obtain ⟨hlistings, hfailed⟩ :=
    (Books.start provider project ignored session).listings_foldl records
  unfold run
  rw [(listings_finish _ _).1, (listings_finish _ _).2, hlistings, hfailed]
  exact ⟨rfl, List.append_nil _⟩

end Conversion

/-- Versions were listed once for each root that was deduced. `deduced` are the roots of the records
and `calls` the listings, each with a source. -/
structure ListedOnce (deduced calls : List (ProjectRoot × Option String)) (lock : Lock)
    (failed : List ProjectRoot) (skipped : List SkippedRoot) : Prop where
  /-- No root is listed twice. -/
  distinct : (calls.map (·.1)).Nodup
  /-- Every root is listed, in the order of their first records. -/
  order : calls.map (·.1) = (deduced.map (·.1)).eraseDups
  /-- A root is listed with the source of its first record. -/
  source : ∀ call ∈ calls, deduced.lookup call.1 = some call.2
  /-- A root that is listed is locked or has failed, and not both. -/
  settled : (calls.map (·.1)).Perm (lock.projects.map (·.root) ++ failed)
  /-- There are as many listings as locked and failed roots. -/
  count : calls.length = lock.projects.length + failed.length
  /-- A root that has failed was left out. -/
  refused : ∀ root ∈ failed, ∃ error, ⟨root.text, error⟩ ∈ skipped

/-- The listings that a journal tells are made once for each root. -/
theorem Told.listedOnce {σ : Type} {provider : Provider σ} {project : ProjectRoot}
    {ignored : List String} {j : Journal} {manifest : Manifest} {lock : Lock}
    {skipped : List SkippedRoot} (h : Told provider project ignored j manifest lock skipped) :
    ListedOnce (j.filterMap Journal.Item.deduction?) (j.filterMap Journal.Item.listing?) lock
      (j.filterMap Journal.Item.refused?).reverse skipped := by
  -- in a journal the first records of roots come before all others of the same root
  have hroots := (Journal.map_fst_listings j).trans h.orderly.filterMap_first?_eq
  have hlocked : lock.projects.map (·.root) = j.filterMap Journal.Item.accepted? := by
    rw [h.projects, Journal.map_root_projects]
  have hsettled : ((j.filterMap Journal.Item.listing?).map (·.1)).Perm
      (lock.projects.map (·.root) ++ (j.filterMap Journal.Item.refused?).reverse) := by
    rw [Journal.map_fst_listings, hlocked]
    exact (Journal.first?_perm j).trans ((List.reverse_perm _).symm.append_left _)
  refine {
    distinct := hroots ▸ nodup_eraseDups _
    order := by rw [hroots, Journal.map_fst_deductions]
    source := ?_
    settled := hsettled
    count := by simpa using hsettled.length_eq
    refused := ?_ }
  · intro call hcall
    obtain ⟨e, he, hlisting⟩ := List.mem_filterMap.mp hcall
    obtain ⟨root, hfirst, rfl⟩ := Option.map_eq_some_iff.mp hlisting
    rw [Journal.lookup_deductions, h.orderly.firstOf?_eq he hfirst]
    rfl
  · intro root hroot
    obtain ⟨e, he, hrefused⟩ := List.mem_filterMap.mp (List.mem_reverse.mp hroot)
    unfold Journal.Item.refused? at hrefused
    split at hrefused
    · next root' error houtcome =>
      obtain rfl := Option.some.inj hrefused
      refine ⟨error, ?_⟩
      rw [h.skipped]
      exact List.mem_filterMap.mpr ⟨e, he, by rw [Journal.Item.skipped?, houtcome]⟩
    · exact absurd hrefused (by simp)

/-- A conversion lists versions once for each root that is deduced for a record, whatever comes of
it, and lists none if the metadata cannot be converted. -/
theorem listedOnce_convert {σ : Type} (provider : Provider σ) (project : ProjectRoot)
    (config : LoadedConfig) (ignored : List String) (k : Converter σ) :
    match k.convert provider project config ignored with
    | (.error _, k') => k'.session.listings = k.session.listings
    | (.ok (_, lock), k') =>
      ∃ calls, k'.session.listings = k.session.listings ++ calls ∧
        ListedOnce
          (Conversion.deductions provider project (config.ignored ++ ignored) (.start k.session)
            config.records)
          calls lock
          (Conversion.run provider project config.records (config.ignored ++ ignored)
            k.session).failed
          k'.skipped := by
  cases herror : config.error? with
  | some error =>
      unfold Converter.convert
      rw [herror]
  | none =>
      rw [Converter.convert_eq_run herror provider project ignored k rfl]
      obtain ⟨hlistings, hfailed⟩ := Conversion.listings_run provider project
        (config.ignored ++ ignored) config.records k.session
      refine ⟨_, hlistings, ?_⟩
      rw [Conversion.deductions_eq, hfailed]
      exact (Conversion.told_run config.records k.session).listedOnce

end Relock
