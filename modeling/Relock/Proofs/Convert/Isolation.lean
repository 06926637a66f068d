import Relock.Proofs.Convert.Books
import Relock.Proofs.Source.Agreement

/-!
# A root that fails harms no other root

Two conversions of the same metadata, whose providers agree but for the versions of one root, run in
step with each other. `Conversion.Alike` is what they have in common: what was deduced, which roots
were seen, and the states of the providers. It does not cover the roots that failed, nor any of the
results, since these may differ; but no step looks at them for another root.

* `Alike.step`: a step keeps two conversions alike, and its outcomes differ at most in the result of
  resolving that root (`Outcome.SameBut`);
* `Alike.journal`: so do the journals of whole runs, item by item;
* `isolated_of_convert`: so the results differ in nothing but that root.
-/

namespace Relock

/-! ## Journals that differ in one root -/

/-- The outcomes are the same, but for the result of resolving `r`. -/
inductive Outcome.SameBut (r : ProjectRoot) : Outcome → Outcome → Prop
  | same (outcome : Outcome) : SameBut r outcome outcome
  | resolved (result result' : Except ResolveError Resolution) :
      SameBut r (.first r result) (.first r result')

namespace Journal

/-- The items are about the same record, and their outcomes are the same, but for the result of
resolving `r`. -/
def Item.SameBut (r : ProjectRoot) (e e' : Item) : Prop :=
  e.record = e'.record ∧ e.outcome.SameBut r e'.outcome

/-- The journals are the same, but for the result of resolving `r`. -/
abbrev SameBut (r : ProjectRoot) (j j' : Journal) : Prop :=
  List.Forall₂ (Item.SameBut r) j j'

/-- The dependencies left out, but for `r` itself. -/
def skippedBut (r : ProjectRoot) (j : Journal) : List SkippedRoot :=
  skipped (j.filter (·.first? ≠ some r))

theorem filterMap_eq_of_forall₂ {α β γ : Type} {rel : α → β → Prop} {l : List α} {l' : List β}
    {f : α → Option γ} {g : β → Option γ} (h : List.Forall₂ rel l l')
    (hfg : ∀ a b, rel a b → f a = g b) : l.filterMap f = l'.filterMap g := by
  induction h with
  | nil => rfl
  | cons hab _ ih => rw [List.filterMap_cons, List.filterMap_cons, hfg _ _ hab, ih]

variable {r : ProjectRoot} {e e' : Item} {j j' : Journal}

theorem Item.SameBut.path_eq (h : e.SameBut r e') : e.path = e'.path := by
  unfold path
  rw [h.1]

theorem Item.SameBut.root?_eq (h : e.SameBut r e') : e.root? = e'.root? := by
  obtain ⟨record, outcome⟩ := e
  obtain ⟨record', outcome'⟩ := e'
  obtain ⟨-, houtcome⟩ := h
  cases houtcome <;> rfl

/-- Apart from `r`, either outcome is that of the same record. -/
theorem Item.SameBut.eq_or (h : e.SameBut r e') :
    e = e' ∨ ∃ result result', e.outcome = .first r result ∧ e'.outcome = .first r result' := by
  obtain ⟨record, outcome⟩ := e
  obtain ⟨record', outcome'⟩ := e'
  obtain ⟨hrecord, houtcome⟩ := h
  cases houtcome with
  | same => exact .inl (by rw [show record = record' from hrecord])
  | resolved result result' => exact .inr ⟨result, result', rfl, rfl⟩

/-- The same packages are in use, even below `r`. -/
theorem SameBut.packages_eq (h : j.SameBut r j') (root : ProjectRoot) :
    j.packages root = j'.packages root := by
  unfold packages
  rw [filterMap_eq_of_forall₂ h fun e e' he => ?_]
  unfold Item.package?
  rw [he.root?_eq, he.path_eq]

/-- The same projects are locked, in the same order, but for the one of `r`. -/
theorem SameBut.projects_eq (h : j.SameBut r j') :
    j.projects.filter (·.root ≠ r) = j'.projects.filter (·.root ≠ r) := by
  unfold projects
  rw [List.filter_filterMap, List.filter_filterMap]
  refine filterMap_eq_of_forall₂ h fun e e' he => ?_
  rcases he.eq_or with rfl | ⟨result, result', houtcome, houtcome'⟩
  · unfold project?
    split
    · rw [h.packages_eq]
    · rfl
  · -- both projects, if there are any, are projects of `r`
    unfold project?
    rw [houtcome, houtcome']
    cases result <;> cases result' <;> simp [Option.filter]

/-- The same is asked of every root but `r`. -/
theorem SameBut.lookup_asked_eq (h : j.SameBut r j') {root : ProjectRoot} (hroot : root ≠ r) :
    j.asked.lookup root = j'.asked.lookup root := by
  have hcons : ∀ e (j : Journal),
      asked (e :: j) = e.asked?.toList ++ asked j := by
    intro e j
    unfold asked
    rw [List.filterMap_cons]
    cases e.asked? <;> rfl
  induction h with
  | nil => rfl
  | @cons e e' j j' he _ ih =>
      rw [hcons, hcons, List.lookup_append, List.lookup_append, ih]
      congr 1
      rcases he.eq_or with rfl | ⟨result, result', houtcome, houtcome'⟩
      · rfl
      · -- a record of `r` asks for nothing of another root, however its resolution ends
        have hnone : ∀ (e : Item) result, e.outcome = .first r result →
            e.asked?.toList.lookup root = none := by
          intro e result houtcome
          unfold Item.asked?
          rw [houtcome]
          cases result with
          | error error => rfl
          | ok resolution =>
              dsimp only
              cases Conversion.properties? e.record resolution <;> simp [hroot]
        rw [hnone e result houtcome, hnone e' result' houtcome']

/-- The same dependencies are left out, but for `r` itself. -/
theorem SameBut.skippedBut_eq (h : j.SameBut r j') : j.skippedBut r = j'.skippedBut r := by
  unfold skippedBut skipped
  rw [List.filterMap_filter, List.filterMap_filter]
  refine filterMap_eq_of_forall₂ h fun e e' he => ?_
  rcases he.eq_or with rfl | ⟨result, result', houtcome, houtcome'⟩
  · rfl
  · have hfirst : e.first? = some r := Item.first?_of_outcome houtcome
    have hfirst' : e'.first? = some r := Item.first?_of_outcome houtcome'
    simp [hfirst, hfirst']

end Journal

open Journal

namespace Conversion

variable {σ τ : Type} {r : ProjectRoot} {rel : σ → τ → Prop} {provider : Provider σ}
  {provider' : Provider τ} {project : ProjectRoot} {ignored : List String}

/-! ## Conversions in step -/

/-- What two conversions in step have in common. -/
structure Alike (rel : σ → τ → Prop) (c : Conversion σ) (c' : Conversion τ) : Prop where
  deducer : c.deducer = c'.deducer
  seen : c.seen = c'.seen
  state : rel c.session.state c'.session.state

/-- Outcomes differ at most in the result of resolving `r`. -/
theorem Alike.outcome {c : Conversion σ} {c' : Conversion τ} (h : Alike rel c c')
    (hagree : provider.AgreeBut r rel provider') (project : ProjectRoot) (ignored : List String)
    (record : ImportRecord) :
    (outcome provider project ignored c record).SameBut r
      (Conversion.outcome provider' project ignored c' record) := by
  -- no versions are listed for a deduction, so both runs deduce alike
  obtain ⟨hanswer, -, hnext⟩ :=
    hagree.deduce h.state c.deducer (trimSlashes record.importPath)
  unfold Conversion.outcome
  by_cases hown : project.contains (trimSlashes record.importPath) = true
  · simp only [hown, if_true]
    exact .same _
  · by_cases hignored : trimSlashes record.importPath ∈ ignored
    · simp only [hown, hignored, if_true]
      exact .same _
    · rw [Bool.not_eq_true] at hown
      simp only [hown, hignored, if_false]
      rw [← h.deducer, ← h.seen]
      rcases hs : c.deducer.deduce provider (trimSlashes record.importPath) c.session with
        ⟨answer, d, s⟩
      rcases ht : c.deducer.deduce provider' (trimSlashes record.importPath) c'.session with
        ⟨answer', d', t⟩
      rw [hs, ht] at hanswer hnext
      dsimp only at hanswer hnext
      subst hanswer
      cases answer with
      | error error => exact .same _
      | ok root =>
          dsimp only
          by_cases hseen : root ∈ c.seen
          · simp only [hseen, if_true]
            exact .same _
          · simp only [hseen, if_false]
            by_cases hroot : root = r
            · -- here alone the providers may answer differently
              subst hroot
              exact .resolved _ _
            · obtain ⟨hresult, -⟩ := hagree.resolve (s := s.tell (resolvingNotice root record))
                (t := t.tell (resolvingNotice root record)) hnext root record.source
                record.revision record.label
              rw [hresult hroot]
              exact .same _

/-- Turns with such outcomes keep two conversions alike. -/
theorem Alike.turn {c d : Conversion σ} {c' d' : Conversion τ} {record : ImportRecord}
    {outcome outcome' : Outcome} (h : Alike rel c c')
    (hagree : provider.AgreeBut r rel provider') (hsame : outcome.SameBut r outcome')
    (hturn : Turn provider project ignored c record outcome d)
    (hturn' : Turn provider' project ignored c' record outcome' d') : Alike rel d d' := by
  obtain ⟨hseen, hframe⟩ := hturn.frame
  obtain ⟨hseen', hframe'⟩ := hturn'.frame
  rw [← h.deducer] at hframe'
  rw [← h.seen] at hseen'
  obtain ⟨-, hdeducer, hnext⟩ := hagree.deduce h.state c.deducer (trimSlashes record.importPath)
  -- the state after resolving is related whatever the result is
  have hresolved : ∀ root, rel
      (resolve provider root record.source record.revision record.label
        ((c.deducer.deduce provider (trimSlashes record.importPath) c.session).2.2.tell
          (resolvingNotice root record))).2.state
      (resolve provider' root record.source record.revision record.label
        ((c.deducer.deduce provider' (trimSlashes record.importPath) c'.session).2.2.tell
          (resolvingNotice root record))).2.state :=
    fun root => (hagree.resolve (s := Session.tell _ _) (t := Session.tell _ _) hnext root
      record.source record.revision record.label).2
  cases hsame with
  | resolved result result' =>
      refine ⟨?_, hseen.trans hseen'.symm, ?_⟩
      · rw [hframe.1, hframe'.1, hdeducer]
      · rw [hframe.2, hframe'.2]
        exact hresolved r
  | same =>
      refine ⟨?_, hseen.trans hseen'.symm, ?_⟩
      · cases outcome with
        | own => rw [hframe.1, hframe'.1]
        | ignored => rw [hframe.1, hframe'.1]
        | rootless => rw [hframe.1, hframe'.1, hdeducer]
        | first => rw [hframe.1, hframe'.1, hdeducer]
        | later => rw [hframe.1, hframe'.1, hdeducer]
      · cases outcome with
        | own => rw [hframe.2, hframe'.2]; exact h.state
        | ignored => rw [hframe.2, hframe'.2]; exact h.state
        | rootless => rw [hframe.2, hframe'.2]; exact hnext
        | first root => rw [hframe.2, hframe'.2]; exact hresolved root
        | later => rw [hframe.2, hframe'.2]; exact hnext

/-- The journals of whole runs are the same, but for the result of resolving `r`. -/
theorem Alike.journal {c : Conversion σ} {c' : Conversion τ} (h : Alike rel c c')
    (hagree : provider.AgreeBut r rel provider') {j j' : Journal}
    (hbooks : Books provider project ignored j c) (hbooks' : Books provider' project ignored j' c')
    (records : List ImportRecord) :
    (Conversion.journal provider project ignored c records).SameBut r
      (Conversion.journal provider' project ignored c' records) := by
  induction records generalizing c c' j j' with
  | nil => exact .nil
  | cons record records ih =>
      have hsame := h.outcome hagree project ignored record
      have hturn := turn_step provider project ignored c record fun _ => hbooks.seen_of_failed
      have hturn' :=
        turn_step provider' project ignored c' record fun _ => hbooks'.seen_of_failed
      exact .cons ⟨rfl, hsame⟩ (ih (h.turn hagree hsame hturn hturn')
        (hbooks.turn hturn) (hbooks'.turn hturn'))

end Conversion

/-! ## Isolation -/

/-- Of two conversions whose providers agree but for the versions of `r`, either both reject the
metadata alike, or both succeed and lock, ask, ignore and leave out the same but for `r`. -/
theorem isolated_of_convert {σ τ : Type} {r : ProjectRoot} {rel : σ → τ → Prop}
    {provider : Provider σ} {provider' : Provider τ}
    (hagree : provider.AgreeBut r rel provider') (k : Converter σ) (k' : Converter τ)
    (hstate : rel k.session.state k'.session.state) (project : ProjectRoot) (config : LoadedConfig)
    (ignored : List String) :
    (∃ error, k.convert provider project config ignored = (.error error, k) ∧
      k'.convert provider' project config ignored = (.error error, k')) ∨
    ∃ manifest lock done manifest' lock' done',
      k.convert provider project config ignored = (.ok (manifest, lock), done) ∧
      k'.convert provider' project config ignored = (.ok (manifest', lock'), done') ∧
      lock.projects.filter (·.root ≠ r) = lock'.projects.filter (·.root ≠ r) ∧
      (∀ root, root ≠ r →
        manifest.constraints.lookup? root = manifest'.constraints.lookup? root) ∧
      manifest.ignored = manifest'.ignored ∧
      done.skipped = (k.journal provider project config ignored).skipped ∧
      done'.skipped = (k'.journal provider' project config ignored).skipped ∧
      (k.journal provider project config ignored).skippedBut r =
        (k'.journal provider' project config ignored).skippedBut r := by
  cases herror : config.error? with
  | some error =>
      refine .inl ⟨error, ?_, ?_⟩
      · rw [Converter.convert, herror]
      · rw [Converter.convert, herror]
  | none =>
      obtain ⟨manifest, lock, done, hdone, htold⟩ :=
        Converter.convert_of_error?_eq_none herror provider project ignored k
      obtain ⟨manifest', lock', done', hdone', htold'⟩ :=
        Converter.convert_of_error?_eq_none herror provider' project ignored k'
      -- the runs go through the records in step and differ only at `r`
      have halike : Conversion.Alike rel (.start k.session) (.start k'.session) :=
        ⟨rfl, rfl, hstate⟩
      have hjournal := halike.journal hagree
        (.start provider project (config.ignored ++ ignored) k.session)
        (.start provider' project (config.ignored ++ ignored) k'.session) config.records
      refine .inr ⟨manifest, lock, done, manifest', lock', done', hdone, hdone', ?_, ?_, ?_,
        htold.skipped, htold'.skipped, hjournal.skippedBut_eq⟩
      · rw [htold.projects, htold'.projects]
        exact hjournal.projects_eq
      · intro root hroot
        rw [htold.asked, htold'.asked]
        exact hjournal.lookup_asked_eq hroot
      · rw [htold.ignored, htold'.ignored]

namespace OneFailing

def dep : ProjectRoot := .ofString "github.com/x/dep"

def gone : ProjectRoot := .ofString "github.com/x/gone"

def versions (root : ProjectRoot) (_source : Option String) :
    Except SourceError (List PairedVersion) :=
  if root = dep then .ok [⟨.ofTag "v1.0.0", ⟨"ff2948a"⟩⟩]
  else if root = gone then .ok [⟨.ofTag "v2.0.0", ⟨"5c60720"⟩⟩]
  else .error (.notFound root.text)

/-- Two repositories that can be listed. -/
def sound : Provider Unit :=
  .fixed "sound" versions fun _ => .ok true

/-- The same repositories, of which one can no longer be listed. -/
def failing : Provider Unit :=
  .fixed "failing"
    (fun root source =>
      if root = gone then .error (.notFound root.text) else versions root source)
    fun _ => .ok true

def project : ProjectRoot := .ofString "github.com/x/app"

def config : LoadedConfig where
  records := [
    .new "github.com/x/gone/foo" "5c60720", .new "github.com/x/dep" "ff2948a",
    .new "github.com/x/gone" "5c60720"]
  ignored := []
  file := none

def done (provider : Provider Unit) : Conversion Unit :=
  .run provider project config.records (config.ignored ++ []) (.start ())

theorem agreeBut : sound.AgreeBut gone (fun _ _ => True) failing := by
  refine Provider.agreeBut_fixed (fun _ => rfl) fun root source hroot => ?_
  rw [if_neg hroot]

end OneFailing

open OneFailing in
theorem isolated_of_convert_oneFailing :
    sound.AgreeBut gone (fun _ _ => True) failing ∧
      (done sound).lock.projects.map (·.root) = [gone, dep] ∧
      (done failing).lock.projects.map (·.root) = [dep] ∧
      (done sound).lock.projects.filter (·.root ≠ gone) =
        (done failing).lock.projects.filter (·.root ≠ gone) := by
  have hrun : ∀ provider, (Converter.new (.start ())).convert provider project config [] =
      (.ok ((done provider).manifest, (done provider).lock),
        ⟨(done provider).skipped, (done provider).session⟩) :=
    fun provider => Converter.convert_eq_run (by decide) provider project [] _ rfl
  refine ⟨agreeBut, by decide +kernel, by decide +kernel, ?_⟩
  rcases isolated_of_convert agreeBut (.new (.start ())) (.new (.start ())) trivial project config
    [] with ⟨error, herror, _⟩ | ⟨_, _, _, _, _, _, hsound, hfailing, hprojects, _⟩
  · rw [hrun] at herror
    exact absurd herror (by simp)
  · rw [hrun] at hsound hfailing
    cases hsound
    cases hfailing
    exact hprojects

end Relock
