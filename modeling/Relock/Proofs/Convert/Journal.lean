import Relock.Convert.Conversion
import Relock.Proofs.Root.Deduction

/-!
# The journal of a conversion

A conversion keeps its findings in several books: the roots seen, the roots that failed, the
manifest, the lock, the dependencies left out. The journal is the one account they can all be told
from. It has an item for each record, in order, with what became of the record in its turn:

* `Outcome` is what can become of a record, and `Conversion.outcome` what does;
* `Conversion.Turn` says for each outcome all that a turn can do, and `turn_step` that every step
  is such a turn;
* `Conversion.journal` collects the outcomes of a run;
* `Journal.skipped`, `Journal.projects` and `Journal.asked` tell the books from a journal.
-/

namespace Relock

/-- What became of a record in its turn. -/
inductive Outcome where
  /-- It belongs to the project itself. -/
  | own
  /-- Its package is ignored. -/
  | ignored
  /-- No root was found for it. -/
  | rootless (error : ResolveError)
  /-- It is the first one of its root, and resolving the root gave this result. -/
  | first (root : ProjectRoot) (result : Except ResolveError Resolution)
  /-- It has the root of an earlier one. -/
  | later (root : ProjectRoot)

namespace Journal

/-- A record and what became of it. -/
structure Item where
  record : ImportRecord
  outcome : Outcome

end Journal

/-- The records of a run with what became of them, in order. -/
abbrev Journal := List Journal.Item

namespace Journal

/-! ## What an item says -/

namespace Item

def path (e : Item) : String :=
  trimSlashes e.record.importPath

/-- What the deducer answered for the record; none if it was not asked. -/
def deduced? (e : Item) : Option (Except ResolveError ProjectRoot) :=
  match e.outcome with
  | .own => none
  | .ignored => none
  | .rootless error => some (.error error)
  | .first root _ => some (.ok root)
  | .later root => some (.ok root)

/-- The root of the record. -/
def root? (e : Item) : Option ProjectRoot :=
  match e.outcome with
  | .first root _ => some root
  | .later root => some root
  | _ => none

/-- The root that was resolved in the turn of the record. -/
def first? (e : Item) : Option ProjectRoot :=
  match e.outcome with
  | .first root _ => some root
  | _ => none

/-- What was left out in the turn of the record. -/
def skipped? (e : Item) : Option SkippedRoot :=
  match e.outcome with
  | .rootless error => some ⟨e.path, error⟩
  | .first root (.error error) => some ⟨root.text, error⟩
  | _ => none

/-- The package that the record brings into use below a root. -/
def package? (root : ProjectRoot) (e : Item) : Option String :=
  if e.root? = some root then root.relativePackage? e.path else none

/-- What the turn of the record adds to the manifest. -/
def asked? (e : Item) : Option (ProjectRoot × ProjectProperties) :=
  match e.outcome with
  | .first root (.ok resolution) =>
    (Conversion.properties? e.record resolution).map fun properties => (root, properties)
  | _ => none

end Item

/-! ## The books of a journal -/

/-- The root of every record that has one. -/
def roots (j : Journal) : List ProjectRoot :=
  j.filterMap Item.root?

def skipped (j : Journal) : List SkippedRoot :=
  j.filterMap Item.skipped?

/-- All that is asked in the manifest, root by root. -/
def asked (j : Journal) : List (ProjectRoot × ProjectProperties) :=
  j.filterMap Item.asked?

/-- The packages in use below a root, each once, as they first came up. -/
def packages (j : Journal) (root : ProjectRoot) : List String :=
  (j.filterMap (Item.package? root)).eraseDups

/-- The project that the turn of a record put into the lock, with all its packages. -/
def project? (j : Journal) (e : Item) : Option LockedProject :=
  match e.outcome with
  | .first root (.ok resolution) =>
    some ⟨root, e.record.source, resolution.version, j.packages root⟩
  | _ => none

def projects (j : Journal) : List LockedProject :=
  j.filterMap j.project?

/-- The record that a root was resolved for. -/
def firstOf? (j : Journal) (root : ProjectRoot) : Option Item :=
  j.find? (·.root? = some root)

end Journal

namespace Conversion

variable {σ : Type}

/-! ## Turns -/

/-- What becomes of a record in its turn. -/
def outcome (provider : Provider σ) (project : ProjectRoot) (ignored : List String)
    (c : Conversion σ) (record : ImportRecord) : Outcome :=
  let path := trimSlashes record.importPath
  if project.contains path then .own
  else if path ∈ ignored then .ignored
  else
    match c.deducer.deduce provider path c.session with
    | (.error error, _, _) => .rootless error
    | (.ok root, _, session) =>
      if root ∈ c.seen then .later root
      else .first root (resolve provider root record.source record.revision record.label
        (session.tell (resolvingNotice root record))).1

/-- The journal of the records still to come. -/
def journal (provider : Provider σ) (project : ProjectRoot) (ignored : List String) :
    Conversion σ → List ImportRecord → Journal
  | _, [] => []
  | c, record :: records =>
    ⟨record, outcome provider project ignored c record⟩ ::
      journal provider project ignored (step provider project ignored c record) records

/-- A turn: how a record, whose outcome is given, leads from one state to the next. -/
inductive Turn (provider : Provider σ) (project : ProjectRoot) (ignored : List String)
    (c : Conversion σ) (record : ImportRecord) : Outcome → Conversion σ → Prop
  | own (notice : Notice)
      (hown : project.contains (trimSlashes record.importPath) = true) :
      Turn provider project ignored c record .own (c.tell notice)
  | ignored (notice : Notice)
      (hown : project.contains (trimSlashes record.importPath) = false)
      (hignored : trimSlashes record.importPath ∈ ignored) :
      Turn provider project ignored c record .ignored (c.tell notice)
  | rootless (error : ResolveError) (deducer : Deducer) (session : Session σ)
      (hown : project.contains (trimSlashes record.importPath) = false)
      (hignored : trimSlashes record.importPath ∉ ignored)
      (hdeduce : c.deducer.deduce provider (trimSlashes record.importPath) c.session =
        (.error error, deducer, session)) :
      Turn provider project ignored c record (.rootless error)
        (skip (trimSlashes record.importPath) error { c with deducer, session })
  | refused (root : ProjectRoot) (error : ResolveError) (deducer : Deducer)
      (session session' : Session σ)
      (hown : project.contains (trimSlashes record.importPath) = false)
      (hignored : trimSlashes record.importPath ∉ ignored)
      (hdeduce : c.deducer.deduce provider (trimSlashes record.importPath) c.session =
        (.ok root, deducer, session))
      (hfresh : root ∉ c.seen)
      (hresolve : resolve provider root record.source record.revision record.label
        (session.tell (resolvingNotice root record)) = (.error error, session')) :
      Turn provider project ignored c record (.first root (.error error))
        (skip root.text error
          { c with deducer, session := session', seen := root :: c.seen
                   failed := root :: c.failed })
  | accepted (root : ProjectRoot) (resolution : Resolution) (deducer : Deducer)
      (session session' : Session σ)
      (hown : project.contains (trimSlashes record.importPath) = false)
      (hignored : trimSlashes record.importPath ∉ ignored)
      (hdeduce : c.deducer.deduce provider (trimSlashes record.importPath) c.session =
        (.ok root, deducer, session))
      (hfresh : root ∉ c.seen)
      (hresolve : resolve provider root record.source record.revision record.label
        (session.tell (resolvingNotice root record)) = (.ok resolution, session')) :
      Turn provider project ignored c record (.first root (.ok resolution))
        (accept root (trimSlashes record.importPath) record resolution
          { c with deducer, session := session', seen := root :: c.seen })
  | lost (root : ProjectRoot) (deducer : Deducer) (session : Session σ) (notice : Notice)
      (hown : project.contains (trimSlashes record.importPath) = false)
      (hignored : trimSlashes record.importPath ∉ ignored)
      (hdeduce : c.deducer.deduce provider (trimSlashes record.importPath) c.session =
        (.ok root, deducer, session))
      (hseen : root ∈ c.seen) (hfailed : root ∈ c.failed) :
      Turn provider project ignored c record (.later root)
        (tell notice { c with deducer, session })
  | joined (root : ProjectRoot) (deducer : Deducer) (session : Session σ)
      (hown : project.contains (trimSlashes record.importPath) = false)
      (hignored : trimSlashes record.importPath ∉ ignored)
      (hdeduce : c.deducer.deduce provider (trimSlashes record.importPath) c.session =
        (.ok root, deducer, session))
      (hseen : root ∈ c.seen) (hfailed : root ∉ c.failed) :
      Turn provider project ignored c record (.later root)
        (join root (trimSlashes record.importPath) { c with deducer, session })

variable (provider : Provider σ) (project : ProjectRoot) (ignored : List String)

/-- Every step is a turn, provided that only roots already seen have failed. -/
theorem turn_step (c : Conversion σ) (record : ImportRecord)
    (hfailed : ∀ root ∈ c.failed, root ∈ c.seen) :
    Turn provider project ignored c record (outcome provider project ignored c record)
      (step provider project ignored c record) := by
  unfold outcome step
  by_cases hown : project.contains (trimSlashes record.importPath) = true
  · simp only [hown, if_true]
    exact .own _ hown
  · by_cases hignored : trimSlashes record.importPath ∈ ignored
    · simp only [hown, hignored, if_true]
      exact .ignored _ (by simpa using hown) hignored
    · rw [Bool.not_eq_true] at hown
      simp only [hown, hignored, if_false]
      rcases hdeduce : c.deducer.deduce provider (trimSlashes record.importPath) c.session with
        ⟨error | root, deducer, session⟩
      · exact .rootless _ _ _ hown hignored hdeduce
      · simp only [stepAt]
        by_cases hseen : root ∈ c.seen
        · by_cases hlost : root ∈ c.failed
          · simp only [hseen, hlost, if_true]
            exact .lost _ _ _ _ hown hignored hdeduce hseen hlost
          · simp only [hseen, hlost, if_true, if_false]
            exact .joined _ _ _ hown hignored hdeduce hseen hlost
        · -- a root that is not seen has not failed either, so it is resolved now
          have hlost : root ∉ c.failed := fun h => hseen (hfailed root h)
          simp only [hseen, hlost, if_false, resolveRoot]
          rcases hresolve : resolve provider root record.source record.revision record.label
            (session.tell (resolvingNotice root record)) with ⟨error | resolution, session'⟩
          · exact .refused _ _ _ _ _ hown hignored hdeduce hseen hresolve
          · exact .accepted _ _ _ _ _ hown hignored hdeduce hseen hresolve

variable {provider project ignored} in
/-- What a turn leaves of the parts of a conversion on which other roots depend. -/
theorem Turn.frame {c c' : Conversion σ} {record : ImportRecord} {outcome : Outcome} :
    Turn provider project ignored c record outcome c' →
    c'.seen = (match outcome with
      | .first root _ => root :: c.seen
      | _ => c.seen) ∧
    match outcome with
    | .own | .ignored => c'.deducer = c.deducer ∧ c'.session.state = c.session.state
    | .first root _ =>
      c'.deducer = (c.deducer.deduce provider (trimSlashes record.importPath) c.session).2.1 ∧
        c'.session.state = (resolve provider root record.source record.revision record.label
          ((c.deducer.deduce provider (trimSlashes record.importPath) c.session).2.2.tell
            (resolvingNotice root record))).2.state
    | _ =>
      c'.deducer = (c.deducer.deduce provider (trimSlashes record.importPath) c.session).2.1 ∧
        c'.session.state =
          (c.deducer.deduce provider (trimSlashes record.importPath) c.session).2.2.state := by
  intro h
  cases h with
  | own => exact ⟨rfl, rfl, rfl⟩
  | ignored => exact ⟨rfl, rfl, rfl⟩
  | rootless error deducer session hown hignored hdeduce =>
      dsimp only
      rw [hdeduce]
      exact ⟨rfl, rfl, rfl⟩
  | refused root error deducer session session' hown hignored hdeduce hfresh hresolve =>
      dsimp only
      rw [hdeduce, hresolve]
      exact ⟨rfl, rfl, rfl⟩
  | accepted root resolution deducer session session' hown hignored hdeduce hfresh hresolve =>
      dsimp only
      rw [hdeduce, hresolve]
      exact ⟨rfl, rfl, rfl⟩
  | lost root deducer session notice hown hignored hdeduce =>
      dsimp only
      rw [hdeduce]
      exact ⟨rfl, rfl, rfl⟩
  | joined root deducer session hown hignored hdeduce =>
      dsimp only
      rw [hdeduce]
      exact ⟨rfl, rfl, rfl⟩

variable {provider project ignored} in
/-- A turn leaves the deducer as it was, or asks it about the record. -/
theorem Turn.deducer {c c' : Conversion σ} {record : ImportRecord} {outcome : Outcome}
    (h : Turn provider project ignored c record outcome c') :
    c'.deducer = c.deducer ∨
      c'.deducer =
        (c.deducer.deduce provider (trimSlashes record.importPath) c.session).2.1 := by
  have hframe := h.frame.2
  cases outcome with
  | own => exact .inl hframe.1
  | ignored => exact .inl hframe.1
  | rootless => exact .inr hframe.1
  | first => exact .inr hframe.1
  | later => exact .inr hframe.1

/-! ## Runs -/

/-- The items of a journal are about the records, in order. -/
theorem map_record_journal (c : Conversion σ) (records : List ImportRecord) :
    (journal provider project ignored c records).map (·.record) = records := by
  induction records generalizing c with
  | nil => rfl
  | cons record records ih => rw [journal, List.map_cons, ih]

variable {provider project ignored} in
/-- A record that is neither the project's nor ignored was given to the deducer. -/
theorem deduced?_outcome {c : Conversion σ} {record : ImportRecord}
    (hown : project.contains (trimSlashes record.importPath) = false)
    (hignored : trimSlashes record.importPath ∉ ignored) :
    Journal.Item.deduced? ⟨record, outcome provider project ignored c record⟩ =
      some (c.deducer.deduce provider (trimSlashes record.importPath) c.session).1 := by
  unfold Journal.Item.deduced? outcome
  simp only [hown, hignored, if_false]
  rcases c.deducer.deduce provider (trimSlashes record.importPath) c.session with
    ⟨error | root, deducer, session⟩
  · rfl
  · by_cases hseen : root ∈ c.seen <;> simp [hseen]

/-- A journal goes on where its first part ends. -/
theorem journal_append (c : Conversion σ) (records others : List ImportRecord) :
    journal provider project ignored c (records ++ others) =
      journal provider project ignored c records ++
        journal provider project ignored (records.foldl (step provider project ignored) c)
          others := by
  induction records generalizing c with
  | nil => rfl
  | cons record records ih =>
      rw [List.cons_append, journal, journal, List.foldl_cons, ih, List.cons_append]

/-- The item of a record is made in the state to which the records before it lead. -/
theorem getElem?_journal (c : Conversion σ) (records others : List ImportRecord)
    (record : ImportRecord) :
    (journal provider project ignored c (records ++ record :: others))[records.length]? =
      some ⟨record, outcome provider project ignored
        (records.foldl (step provider project ignored) c) record⟩ := by
  have hlength : (journal provider project ignored c records).length = records.length := by
    rw [← List.length_map, map_record_journal provider project ignored]
  rw [journal_append, ← hlength, List.getElem?_append_right le_rfl, Nat.sub_self]
  rfl

end Conversion

end Relock
