import Relock.Proofs.Resolve.Choice
import Relock.Proofs.Version.Order

/-!
# Which version is chosen

`Resolution.Picks` says what may be locked and asked for when certain versions are at the recorded
revision. Nothing is made up and nothing is missed: a version is locked if and only if there is one,
one of the label's number if there is one, spelled like the label if possible, and else one that no
other precedes in upgrade order. What is asked for is the caret of the label's number if it has one,
and else what the locked version asks for by itself (`Asks`).

* `picks_byRevision` and `picks_choose` say so of the choice among versions in upgrade order;
* `picks_resolve` says so of every resolution, in whatever order the versions are listed, and that a
  listing that fails is no resolution.
-/

namespace Relock.Resolution

/-- The number that a label reads as, if there is a label and it reads as one. -/
def numberOf? (label : Option String) : Option Semver :=
  label.bind Label.number?

/-- What a version that is locked asks of later ones. -/
inductive Asks : LockedVersion → Option Constraint → Prop
  /-- A semantic version asks for compatible ones. -/
  | number (number : Semver) (label : String) (revision : Revision) :
      Asks (.paired ⟨.semver number label, revision⟩) (some (.caret number))
  /-- A branch asks for itself, be it shown by default or not. -/
  | branch (name : String) (isDefault : Bool) (revision : Revision) :
      Asks (.paired ⟨.branch name isDefault, revision⟩) (some (.branch name))
  | tag (name : String) (revision : Revision) : Asks (.paired ⟨.tag name, revision⟩) none
  | bare (revision : Revision) : Asks (.bare revision) none

theorem asks_constraint? (v : PairedVersion) : Asks (.paired v) v.version.constraint? := by
  obtain ⟨version, revision⟩ := v
  cases version with
  | semver number label => exact .number number label revision
  | branch name isDefault => exact .branch name isDefault revision
  | tag name => exact .tag name revision

theorem Asks.unique {locked : LockedVersion} {asked asked' : Option Constraint}
    (h : Asks locked asked) (h' : Asks locked asked') : asked = asked' := by
  cases h <;> cases h' <;> rfl

/-- What may become of a revision and a label if `here` are the versions at the revision. -/
structure Picks (revision : Revision) (label : Option String) (here : List PairedVersion)
    (r : Resolution) : Prop where
  /-- A version at the revision is locked, or the revision alone. -/
  locks : (∃ v ∈ here, r.version = .paired v) ∨ r.version = .bare revision
  /-- The revision alone is locked only if no version is there. -/
  bare_iff : r.version = .bare revision ↔ here = []
  /-- A version of the label's number comes first, and before it one that is spelled alike. -/
  labelled : ∀ text number, label = some text → Label.number? text = some number →
    (∃ v ∈ here, v.version.number? = some number) →
      ∃ v ∈ here, r.version = .paired v ∧ v.version.number? = some number ∧
        ((∃ w ∈ here, w.version.number? = some number ∧ w.version.label = text) →
          v.version.label = text)
  /-- Else no version comes before the one that is locked. -/
  first : here ≠ [] →
    (∀ number, numberOf? label = some number → ∀ v ∈ here, v.version.number? ≠ some number) →
      ∃ v ∈ here, r.version = .paired v ∧
        ∀ w ∈ here, w.version.upgradeOrder v.version ≠ .lt
  /-- The label's number asks for compatible versions, whatever is locked. -/
  asked_of_number : ∀ number, numberOf? label = some number → r.constraint = some (.caret number)
  /-- Without a number, what is locked asks. -/
  asked_of_locked : numberOf? label = none → Asks r.version r.constraint

theorem Picks.congr {revision : Revision} {label : Option String}
    {here here' : List PairedVersion} {r : Resolution} (h : Picks revision label here r)
    (hmem : ∀ v, v ∈ here ↔ v ∈ here') : Picks revision label here' r := by
  have hnil : here = [] ↔ here' = [] := by
    simp only [List.eq_nil_iff_forall_not_mem, hmem]
  have hlocks := h.locks
  have hbare := h.bare_iff
  have hlabelled := h.labelled
  have hfirst := h.first
  simp only [hmem, hnil, ne_eq] at hlocks hbare hlabelled hfirst
  exact ⟨hlocks, hbare, hlabelled, hfirst, h.asked_of_number, h.asked_of_locked⟩

theorem Picks.version_of_singleton {revision : Revision} {label : Option String}
    {v : PairedVersion} {r : Resolution} (h : Picks revision label [v] r) :
    r.version = .paired v := by
  rcases h.locks with ⟨w, hw, hversion⟩ | hbare
  · rw [hversion, List.mem_singleton.mp hw]
  · exact absurd (h.bare_iff.mp hbare) (by simp)

/-- Without a number in the label, what is locked settles what is asked for. -/
theorem Picks.constraint_eq {revision : Revision} {label : Option String}
    {here : List PairedVersion} {r : Resolution} (h : Picks revision label here r)
    (hlabel : numberOf? label = none) {locked : LockedVersion} {asked : Option Constraint}
    (hlocked : r.version = locked) (hasks : Asks locked asked) : r.constraint = asked := by
  subst hlocked
  exact (h.asked_of_locked hlabel).unique hasks

/-! ## Choosing among versions in upgrade order -/

theorem mem_ofNumber {v : PairedVersion} {number : Semver} {versions : List PairedVersion} :
    v ∈ ofNumber number versions ↔ v ∈ versions ∧ v.version.number? = some number := by
  rw [ofNumber, List.mem_filter, decide_eq_true_eq]

theorem mem_atRevision_ofNumber {v : PairedVersion} {revision : Revision} {number : Semver}
    {versions : List PairedVersion} :
    v ∈ atRevision revision (ofNumber number versions) ↔
      v ∈ atRevision revision versions ∧ v.version.number? = some number := by
  rw [mem_atRevision, mem_atRevision, mem_ofNumber, and_right_comm]

theorem spelledLike?_eq_none_iff {label : String} {versions : List PairedVersion} :
    spelledLike? label versions = none ↔ versions = [] := by
  unfold spelledLike?
  rw [Option.or_eq_none_iff, List.head?_eq_none_iff, and_iff_right_iff_imp]
  rintro rfl
  rfl

/-- A version that is spelled like the label is found if there is one. -/
theorem label_of_spelledLike? {label : String} {versions : List PairedVersion} {v : PairedVersion}
    (h : spelledLike? label versions = some v)
    (hexact : ∃ w ∈ versions, w.version.label = label) : v.version.label = label := by
  obtain ⟨w, hw, hlabel⟩ := hexact
  unfold spelledLike? at h
  rcases Option.or_eq_some_iff.mp h with hfound | ⟨hnone, _⟩
  · simpa using List.find?_some hfound
  · exact absurd (decide_eq_true hlabel) (List.find?_eq_none.mp hnone w hw)

section

variable {root : ProjectRoot} {revision : Revision} {versions : List PairedVersion}

/-- Of versions in upgrade order, none at the revision precedes the first one there. -/
theorem upgradeOrder_ne_lt_of_atRevision {best : PairedVersion} {others : List PairedVersion}
    (hsorted : versions.Pairwise fun a b => (a.version.upgradeOrder b.version).isLE = true)
    (hhere : atRevision revision versions = best :: others) :
    ∀ w ∈ atRevision revision versions, w.version.upgradeOrder best.version ≠ .lt := by
  have hpairwise := hsorted.filter (·.revision.isNamedBy revision)
  change (atRevision revision versions).Pairwise _ at hpairwise
  rw [hhere] at hpairwise ⊢
  intro w hw hlt
  have hself : w.version.upgradeOrder w.version = .eq := Std.ReflCmp.compare_self
  rcases List.mem_cons.mp hw with rfl | hw
  · rw [hself] at hlt
    exact absurd hlt (by decide)
  · have hle := (List.pairwise_cons.mp hpairwise).1 w hw
    rw [Std.TransCmp.lt_of_lt_of_isLE hlt hle] at hself
    exact absurd hself (by decide)

theorem byRevision_of_nil (h : atRevision revision versions = []) (constraint : Option Constraint) :
    (byRevision root revision constraint versions).1 = ⟨constraint, .bare revision⟩ := by
  unfold byRevision
  rw [h]

theorem byRevision_of_cons {best : PairedVersion} {others : List PairedVersion}
    (h : atRevision revision versions = best :: others) (constraint : Option Constraint) :
    (byRevision root revision constraint versions).1 =
      ⟨constraint.or best.version.constraint?, .paired best⟩ := by
  unfold byRevision
  rw [h]

/-- Without a version of the label's number, the choice goes by the revision. -/
theorem picks_byRevision (root : ProjectRoot) (label : Option String)
    (hsorted : versions.Pairwise fun a b => (a.version.upgradeOrder b.version).isLE = true)
    (hnone : ∀ number, numberOf? label = some number →
      ∀ v ∈ atRevision revision versions, v.version.number? ≠ some number) :
    Picks revision label (atRevision revision versions)
      (byRevision root revision ((numberOf? label).map Constraint.caret) versions).1 := by
  have hlabelled : ∀ text number, label = some text → Label.number? text = some number →
      ¬ ∃ v ∈ atRevision revision versions, v.version.number? = some number := by
    rintro text number rfl hnumber ⟨v, hv, hsame⟩
    exact hnone number hnumber v hv hsame
  cases hhere : atRevision revision versions with
  | nil =>
      rw [hhere] at hlabelled
      rw [byRevision_of_nil hhere]
      exact {
        locks := .inr rfl
        bare_iff := by simp
        labelled := fun text number htext hnumber hsome =>
          absurd hsome (hlabelled text number htext hnumber)
        first := fun hne => absurd rfl hne
        asked_of_number := fun number hnumber => by rw [hnumber, Option.map_some]
        asked_of_locked := fun hnumber => by
          rw [hnumber, Option.map_none]
          exact .bare revision }
  | cons best others =>
      have hfirst := upgradeOrder_ne_lt_of_atRevision hsorted hhere
      rw [hhere] at hlabelled hfirst
      rw [byRevision_of_cons hhere]
      have hbest : best ∈ best :: others := List.mem_cons_self
      exact {
        locks := .inl ⟨best, hbest, rfl⟩
        bare_iff := by simp
        labelled := fun text number htext hnumber hsome =>
          absurd hsome (hlabelled text number htext hnumber)
        first := fun _ _ => ⟨best, hbest, rfl, hfirst⟩
        -- a number goes before what the version itself asks for
        asked_of_number := fun number hnumber => by rw [hnumber, Option.map_some, Option.some_or]
        asked_of_locked := fun hnumber => by
          rw [hnumber, Option.map_none, Option.none_or]
          exact asks_constraint? best }

theorem choose_of_unnumbered {label : Option String} (h : numberOf? label = none) :
    (choose root revision label versions).1 = (byRevision root revision none versions).1 := by
  unfold choose
  cases label with
  | none => rfl
  | some text =>
      dsimp only
      rw [show Label.number? text = none from h]

theorem choose_of_numbered {text : String} {number : Semver}
    (h : Label.number? text = some number) :
    (choose root revision (some text) versions).1 =
      match spelledLike? text (atRevision revision (ofNumber number versions)) with
      | some exact => ⟨some (.caret number), .paired exact⟩
      | none => (byRevision root revision (some (.caret number)) versions).1 := by
  unfold choose
  dsimp only
  rw [h]
  dsimp only
  cases spelledLike? text (atRevision revision (ofNumber number versions)) <;> rfl

/-- A version of the label's number is chosen if there is one at the revision. -/
theorem picks_of_spelledLike? {text : String} {number : Semver} {exact : PairedVersion}
    (hnumber : Label.number? text = some number)
    (hexact : spelledLike? text (atRevision revision (ofNumber number versions)) = some exact) :
    Picks revision (some text) (atRevision revision versions)
      ⟨some (.caret number), .paired exact⟩ := by
  obtain ⟨hhere, hsame⟩ := mem_atRevision_ofNumber.mp (mem_of_spelledLike? hexact)
  have hnumberOf : numberOf? (some text) = some number := hnumber
  refine {
    locks := .inl ⟨exact, hhere, rfl⟩
    bare_iff := by simp [List.ne_nil_of_mem hhere]
    labelled := ?_
    first := fun _ hnone => absurd hsame (hnone number hnumberOf exact hhere)
    asked_of_number := ?_
    asked_of_locked := fun hnone => absurd (hnumberOf.symm.trans hnone) (by simp) }
  · rintro text' number' htext hnumber' -
    obtain rfl : text = text' := Option.some.inj htext
    obtain rfl : number = number' := Option.some.inj (hnumber.symm.trans hnumber')
    refine ⟨exact, hhere, rfl, hsame, ?_⟩
    rintro ⟨w, hw, hsame, hlabel⟩
    exact label_of_spelledLike? hexact ⟨w, mem_atRevision_ofNumber.mpr ⟨hw, hsame⟩, hlabel⟩
  · intro number' hnumber'
    obtain rfl : number = number' := Option.some.inj (hnumberOf.symm.trans hnumber')
    rfl

/-- The choice among versions in upgrade order. -/
theorem picks_choose (root : ProjectRoot) (revision : Revision) (label : Option String)
    (hsorted : versions.Pairwise fun a b => (a.version.upgradeOrder b.version).isLE = true) :
    Picks revision label (atRevision revision versions)
      (choose root revision label versions).1 := by
  cases hnumber : numberOf? label with
  | none =>
      have hpicks : Picks revision label (atRevision revision versions) _ :=
        picks_byRevision root label hsorted (by simp [hnumber])
      rw [hnumber] at hpicks
      rw [choose_of_unnumbered hnumber]
      exact hpicks
  | some number =>
      obtain ⟨text, rfl, htext⟩ := Option.bind_eq_some_iff.mp hnumber
      rw [choose_of_numbered htext]
      cases hspelled : spelledLike? text (atRevision revision (ofNumber number versions)) with
      | some exact => exact picks_of_spelledLike? htext hspelled
      | none =>
          -- no version of the number is at the revision, wherever else there may be one
          have hnone : ∀ number', numberOf? (some text) = some number' →
              ∀ v ∈ atRevision revision versions, v.version.number? ≠ some number' := by
            intro number' hnumber' v hv hsame
            obtain rfl : number = number' := Option.some.inj (hnumber.symm.trans hnumber')
            have hmem := mem_atRevision_ofNumber.mpr ⟨hv, hsame⟩
            rw [spelledLike?_eq_none_iff.mp hspelled] at hmem
            exact absurd hmem List.not_mem_nil
          have hpicks := picks_byRevision root (some text) hsorted hnone
          rw [hnumber] at hpicks
          exact hpicks

/-! ## Resolving -/

/-- A resolution picks among the listed versions at the revision; if the listing fails, there is
none. -/
theorem picks_resolve {σ : Type} (provider : Provider σ) (root : ProjectRoot)
    (source : Option String) (revision : Revision) (label : Option String) (s : Session σ) :
    match (s.listVersions provider root source).1 with
    | .ok versions =>
      ∃ r, (resolve provider root source revision label s).1 = .ok r ∧
        Picks revision label (versions.filter (·.revision.isNamedBy revision)) r
    | .error (.notFound _) =>
      (resolve provider root source revision label s).1 = .error (.unresolvable root.text)
    | .error (.other fault) =>
      (resolve provider root source revision label s).1 =
        .error (.provider root.text fault.text) := by
  cases hlist : (s.listVersions provider root source).1 with
  | ok versions =>
      have hpicks := picks_choose root revision label (pairwise_sortForUpgrade versions)
      refine ⟨_, congrArg Prod.fst (resolve_of_listed hlist revision label), ?_⟩
      refine hpicks.congr fun v => ?_
      rw [mem_atRevision, mem_sortForUpgrade, List.mem_filter]
  | error error =>
      have hrefused := congrArg Prod.fst (resolve_of_refused hlist revision label)
      cases error with
      | notFound location => exact hrefused
      | other fault => exact hrefused

end

namespace FourKinds

/-- A release, at a revision that it shares with a branch. -/
def release : PairedVersion := ⟨.semver (.release 1 2 0) "v1.2.0", ⟨"ff2948a"⟩⟩

def main : PairedVersion := ⟨.branch "main" true, ⟨"ff2948a"⟩⟩

def topic : PairedVersion := ⟨.branch "topic" false, ⟨"0b1c2d3"⟩⟩

def nightly : PairedVersion := ⟨.tag "nightly", ⟨"4e5f607"⟩⟩

def root : ProjectRoot := .ofString "github.com/x/dep"

/-- One repository with versions of all kinds. -/
def provider : Provider Unit :=
  .ofTable "table" [(root.text, [topic, main, nightly, release])] []

/-- What is resolved for a revision and a label. -/
def resolved (revision : Revision) (label : Option String) : Except ResolveError Resolution :=
  (resolve provider root none revision label (.start ())).1

end FourKinds

open FourKinds in
theorem picks_resolve_fourKinds :
    (∃ r, resolved ⟨"ff2948a"⟩ none = .ok r ∧
      r.version = .paired release ∧ r.constraint = some (.caret (.release 1 2 0))) ∧
    (∃ r, resolved ⟨"0b1c2d3"⟩ none = .ok r ∧
      r.version = .paired topic ∧ r.constraint = some (.branch "topic")) ∧
    (∃ r, resolved ⟨"4e5f607"⟩ none = .ok r ∧
      r.version = .paired nightly ∧ r.constraint = none) ∧
    (∃ r, resolved ⟨"4e5f607"⟩ (some "v2") = .ok r ∧
      r.version = .paired nightly ∧ r.constraint = some (.caret (.release 2 0 0))) ∧
    ∃ r, resolved ⟨"cafe"⟩ none = .ok r ∧ r.version = .bare ⟨"cafe"⟩ ∧ r.constraint = none := by
  have hpicks : ∀ revision label, ∃ r, resolved revision label = .ok r ∧ Picks revision label
      ([topic, main, nightly, release].filter (·.revision.isNamedBy revision)) r := fun revision
    label => picks_resolve provider root none revision label (.start ())
  refine ⟨?_, ?_, ?_, ?_, ?_⟩
  · obtain ⟨r, hr, h⟩ := hpicks ⟨"ff2948a"⟩ none
    have hhere : [topic, main, nightly, release].filter (·.revision.isNamedBy ⟨"ff2948a"⟩) =
        [main, release] := by decide +kernel
    rw [hhere] at h
    obtain ⟨v, hv, hlocked, hfirst⟩ := h.first (by simp) (by simp [numberOf?])
    -- the branch is there as well, but the release comes before it
    have hrelease : v = release := by
      rcases List.mem_cons.mp hv with rfl | hlast
      · exact absurd (by decide +kernel) (hfirst release (by simp))
      · exact List.mem_singleton.mp hlast
    rw [hrelease] at hlocked
    exact ⟨r, hr, hlocked, h.constraint_eq rfl hlocked (.number ..)⟩
  · obtain ⟨r, hr, h⟩ := hpicks ⟨"0b1c2d3"⟩ none
    have hlocked : r.version = .paired topic := h.version_of_singleton
    exact ⟨r, hr, hlocked, h.constraint_eq rfl hlocked (.branch ..)⟩
  · obtain ⟨r, hr, h⟩ := hpicks ⟨"4e5f607"⟩ none
    have hlocked : r.version = .paired nightly := h.version_of_singleton
    exact ⟨r, hr, hlocked, h.constraint_eq rfl hlocked (.tag ..)⟩
  · obtain ⟨r, hr, h⟩ := hpicks ⟨"4e5f607"⟩ (some "v2")
    exact ⟨r, hr, h.version_of_singleton, h.asked_of_number _ (by decide +kernel)⟩
  · obtain ⟨r, hr, h⟩ := hpicks ⟨"cafe"⟩ none
    have hlocked : r.version = .bare ⟨"cafe"⟩ := h.bare_iff.mpr (by decide +kernel)
    exact ⟨r, hr, hlocked, h.constraint_eq rfl hlocked (.bare _)⟩

end Relock.Resolution
