import Relock.Convert.Aloud
import Relock.Proofs.Convert.Books
import Relock.Proofs.Convert.Error

/-!
# Metadata is refused as a whole

A conversion looks through all records before it does anything else. A record without an import path
or a revision, wherever it stands, ends it there: no question is asked, nothing is told, and what
the converter left out in its last conversion stays on its list. Metadata without such a record is
converted, and then the list is that of this conversion alone.

* **the step** (`AllOrNothing`): what one request to a converter comes to;
* **the run** (`LeftByLast`): any number of requests leave what the last one that was not refused
  has left.

`allOrNothing_serve` states both, for a converter in any state.
-/

namespace Relock

/-- What a converter is asked to convert. -/
structure Request where
  project : ProjectRoot
  config : LoadedConfig
  ignored : List String

/-- Every record of the request names a package and a revision. -/
def Request.Complete (r : Request) : Prop :=
  ∀ record ∈ r.config.records, record.Complete

/-- The entry is about the path of a record or about a root that contains it. -/
def SkippedRoot.IsFor (entry : SkippedRoot) (record : ImportRecord) : Prop :=
  entry.importPath = trimSlashes record.importPath ∨
    ∃ root : ProjectRoot, entry.importPath = root.text ∧
      root.contains (trimSlashes record.importPath) = true

namespace Converter

variable {σ : Type} {provider : Provider σ} {c : Converter σ} {r : Request}

def serve (provider : Provider σ) (c : Converter σ) (r : Request) :
    Except ConvertError (Manifest × Lock) × Converter σ :=
  c.convert provider r.project r.config r.ignored

/-- A converter after some requests, one after the other. -/
def serveAll (provider : Provider σ) (requests : List Request) (c : Converter σ) : Converter σ :=
  requests.foldl (fun c r => (c.serve provider r).2) c

/-! ## One request -/

theorem complete_iff_error? : r.Complete ↔ r.config.error? = none := by
  rw [LoadedConfig.error?_eq_none_iff]
  exact forall₂_congr fun record _ => LoadedConfig.complete_iff

theorem serve_of_mistake {error : ConvertError} (h : r.config.error? = some error) :
    c.serve provider r = (.error error, c) := by
  unfold serve convert
  rw [h]

theorem serve_of_incomplete (h : ¬ r.Complete) : (c.serve provider r).2 = c := by
  cases herror : r.config.error? with
  | none => exact absurd (complete_iff_error?.mpr herror) h
  | some error => rw [serve_of_mistake herror]

theorem exists_done_of_complete (provider : Provider σ) (c : Converter σ) (h : r.Complete) :
    ∃ done, (c.serve provider r).1 = .ok done :=
  ⟨_, congrArg Prod.fst
    (convert_eq_run (complete_iff_error?.mp h) provider r.project r.ignored c rfl)⟩

/-- Only metadata with a mistake is refused, and the error is the first mistake. -/
theorem serve_eq_error_iff {error : ConvertError} :
    (c.serve provider r).1 = .error error ↔ r.config.error? = some error := by
  constructor
  · intro h
    cases herror : r.config.error? with
    | none =>
        have hdone := convert_eq_run herror provider r.project r.ignored c rfl
        rw [serve, hdone] at h
        exact absurd h (by simp)
    | some first =>
        rw [serve_of_mistake herror] at h
        rw [Except.error.inj h]
  · intro h
    rw [serve_of_mistake h]

/-- What is left out in a conversion is left out for one of its records. -/
theorem isFor_of_serve {done : Manifest × Lock} (h : (c.serve provider r).1 = .ok done)
    {entry : SkippedRoot} (hentry : entry ∈ (c.serve provider r).2.skipped) :
    ∃ record ∈ r.config.records, entry.IsFor record := by
  obtain ⟨manifest, lock⟩ := done
  have hconvert : c.convert provider r.project r.config r.ignored =
      (.ok (manifest, lock), (c.serve provider r).2) := Prod.ext h rfl
  have htold := told_of_convert hconvert
  rw [htold.skipped] at hentry
  obtain ⟨e, he, hskipped⟩ := List.mem_filterMap.mp hentry
  refine ⟨e.record, record_mem_of_mem_journal he, ?_⟩
  have hvalid := htold.valid e he
  unfold Journal.Item.skipped? at hskipped
  unfold Journal.Item.Valid at hvalid
  split at hskipped
  · obtain rfl := Option.some.inj hskipped
    exact .inl rfl
  · next root error houtcome =>
    obtain rfl := Option.some.inj hskipped
    rw [houtcome] at hvalid
    exact .inr ⟨root, rfl, hvalid.2.1⟩
  · exact absurd hskipped (by simp)

end Converter

/-- A request to a converter in some state is refused as a whole or converted. -/
structure AllOrNothing {σ : Type} (provider : Provider σ) (c : Converter σ) (r : Request) :
    Prop where
  refused_iff : (∃ error, (c.serve provider r).1 = .error error) ↔
    ∃ record ∈ r.config.records, ¬ record.Complete
  error_iff : ∀ error, (c.serve provider r).1 = .error error ↔ r.config.FirstMistake error
  /-- A refusal leaves the list, the provider and all that was asked and told as they were. -/
  untouched : ∀ error, (c.serve provider r).1 = .error error → (c.serve provider r).2 = c
  /-- At a console, a refusal writes nothing and counts no warning. -/
  silent : ∀ error, (c.serve provider r).1 = .error error → ∀ k : Console,
    c.convertAloud provider r.project r.config r.ignored k = ((.error error, c), k)
  /-- A conversion does not depend on what was left out before. -/
  fresh : ∀ done, (c.serve provider r).1 = .ok done →
    c.serve provider r = (Converter.new c.session).serve provider r
  own : ∀ done, (c.serve provider r).1 = .ok done →
    ∀ entry ∈ (c.serve provider r).2.skipped, ∃ record ∈ r.config.records, entry.IsFor record

/-- What a converter is after some requests: as the last one left it that was not refused. -/
inductive LeftByLast {σ : Type} (provider : Provider σ) (c : Converter σ)
    (requests : List Request) : Prop
  | none (hrefused : ∀ r ∈ requests, ¬ r.Complete) (hleft : c.serveAll provider requests = c)
  | last (earlier later : List Request) (r : Request) (hrequests : requests = earlier ++ r :: later)
      (done : Manifest × Lock)
      (hdone : ((c.serveAll provider earlier).serve provider r).1 = .ok done)
      (hrefused : ∀ r ∈ later, ¬ r.Complete)
      (hleft : c.serveAll provider requests =
        ((c.serveAll provider earlier).serve provider r).2)

namespace Converter

variable {σ : Type}

theorem allOrNothing (provider : Provider σ) (c : Converter σ) (r : Request) :
    AllOrNothing provider c r where
  refused_iff := by
    have hincomplete : (∃ record ∈ r.config.records, ¬ record.Complete) ↔ ¬ r.Complete := by
      simp only [Request.Complete, not_forall, exists_prop]
    rw [hincomplete, complete_iff_error?, ← ne_eq, Option.ne_none_iff_exists']
    exact exists_congr fun error => serve_eq_error_iff
  error_iff error := serve_eq_error_iff.trans LoadedConfig.error?_eq_some_iff
  untouched error h := congrArg Prod.snd (serve_of_mistake (serve_eq_error_iff.mp h))
  silent error h k := by
    unfold convertAloud
    rw [serve_eq_error_iff.mp h]
  fresh done h := by
    cases herror : r.config.error? with
    | none =>
        -- of the requests before nothing is left but the session
        have hdone := convert_eq_run herror provider r.project r.ignored c rfl
        have hnew := convert_eq_run herror provider r.project r.ignored (.new c.session) rfl
        exact hdone.trans hnew.symm
    | some error =>
        rw [serve_of_mistake herror] at h
        exact absurd h (by simp)
  own done h entry hentry := isFor_of_serve h hentry

/-! ## Any number of requests -/

theorem serveAll_concat (provider : Provider σ) (requests : List Request) (r : Request)
    (c : Converter σ) :
    c.serveAll provider (requests ++ [r]) = ((c.serveAll provider requests).serve provider r).2 :=
  List.foldl_concat ..

theorem leftByLast (provider : Provider σ) (c : Converter σ) (requests : List Request) :
    LeftByLast provider c requests := by
  induction requests using List.reverseRecOn with
  | nil => exact .none (by simp) rfl
  | append_singleton requests r ih =>
      by_cases hcomplete : r.Complete
      · obtain ⟨done, hdone⟩ :=
          exists_done_of_complete provider (c.serveAll provider requests) hcomplete
        exact .last requests [] r rfl done hdone (by simp) (c.serveAll_concat provider requests r)
      · -- a refused request leaves what was left before it
        have hsame : c.serveAll provider (requests ++ [r]) = c.serveAll provider requests := by
          rw [serveAll_concat, serve_of_incomplete hcomplete]
        have hlast : ∀ r' ∈ [r], ¬ r'.Complete := by simpa using hcomplete
        cases ih with
        | none hrefused hleft =>
            exact .none (List.forall_mem_append.mpr ⟨hrefused, hlast⟩) (hsame.trans hleft)
        | last earlier later r' hrequests done hdone hrefused hleft =>
            refine .last earlier (later ++ [r]) r' ?_ done hdone
              (List.forall_mem_append.mpr ⟨hrefused, hlast⟩) (hsame.trans hleft)
            rw [hrequests, List.append_assoc, List.cons_append]

/-- A converter refuses metadata with an incomplete record without doing anything, and converts all
other metadata. After any requests, the dependencies on its list are those that the last request
left out that was not refused. -/
theorem allOrNothing_serve (provider : Provider σ) (c : Converter σ) (requests : List Request)
    (r : Request) :
    LeftByLast provider c requests ∧ AllOrNothing provider (c.serveAll provider requests) r :=
  ⟨leftByLast provider c requests, allOrNothing provider (c.serveAll provider requests) r⟩

end Converter

end Relock
