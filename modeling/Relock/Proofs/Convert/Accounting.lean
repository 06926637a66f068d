import Relock.Proofs.Convert.Books

/-!
# Every record is accounted for

A record of a conversion that succeeds ends in exactly one of five ways, and the results say in
which:

* `RecordClass` lists the ways, and `Journal.Item.Falls` says what each of them takes;
* `Accounted` is the whole account, of the records as well as of what is locked and left out;
* `accounted_of_convert` gives it for every provider and all metadata.

Nothing is lost on the way: a package that is neither locked nor left out, a root without its first
version or a constraint without a locked project would break the account.
-/

namespace Relock

/-- How a record can end. -/
inductive RecordClass where
  /-- It belongs to the project itself. -/
  | own
  /-- Its package is ignored. -/
  | ignored
  /-- No root was found for it. -/
  | rootless
  /-- Its root was found but could not be resolved. -/
  | lost
  /-- Its package is in use in the lock. -/
  | locked
deriving DecidableEq

namespace Journal

/-- What it takes for a record to end in some way, by the results of the conversion. -/
inductive Item.Falls (project : ProjectRoot) (ignored : List String) (j : Journal) (lock : Lock)
    (skipped : List SkippedRoot) (e : Item) : RecordClass → Prop
  | own (hown : project.contains e.path = true) : e.Falls project ignored j lock skipped .own
  | ignored (hown : project.contains e.path = false) (hignored : e.path ∈ ignored) :
      e.Falls project ignored j lock skipped .ignored
  | rootless (error : ResolveError) (hdeduced : e.deduced? = some (.error error))
      (hskipped : ⟨e.path, error⟩ ∈ skipped) : e.Falls project ignored j lock skipped .rootless
  | lost (root : ProjectRoot) (error : ResolveError) (hdeduced : e.deduced? = some (.ok root))
      (first : Item) (hfirst : j.firstOf? root = some first)
      (hrefused : first.outcome = .first root (.error error))
      (hone : Journal.skipped (j.filter (·.first? = some root)) = [⟨root.text, error⟩])
      (hskipped : ⟨root.text, error⟩ ∈ skipped) (hlock : lock.find? root = none) :
      e.Falls project ignored j lock skipped .lost
  | locked (p : LockedProject) (package : String) (hdeduced : e.deduced? = some (.ok p.root))
      (hone : lock.projects.filter (·.root = p.root) = [p])
      (hpackage : p.root.relativePackage? e.path = some package)
      (hmem : package ∈ p.packages) : e.Falls project ignored j lock skipped .locked

/-- The root of a record, if the lock has it. -/
def Item.lockedRoot? (lock : Lock) (e : Item) : Option ProjectRoot :=
  e.root?.filter fun root => (lock.find? root).isSome

end Journal

open Journal

/-- The whole account of a conversion. -/
structure Accounted {σ : Type} (provider : Provider σ) (project : ProjectRoot)
    (ignored : List String) (j : Journal) (manifest : Manifest) (lock : Lock)
    (skipped : List SkippedRoot) : Prop where
  /-- Every record ends in exactly one way. -/
  classes : ∀ e ∈ j, ∃! kind, e.Falls project ignored j lock skipped kind
  /-- The records that end in the lock are those whose root it has. -/
  locked : ∀ e ∈ j, e.Falls project ignored j lock skipped .locked ↔
    (e.lockedRoot? lock).isSome = true
  /-- Nothing is left out but what the turns of the records left out. -/
  skipped : skipped = j.skipped
  /-- Roots are distinct. -/
  distinct : (lock.projects.map (·.root)).Nodup
  /-- Roots come in the order of their first locked records. -/
  order : lock.projects.map (·.root) = (j.filterMap (Item.lockedRoot? lock)).eraseDups
  /-- No root lies in the project. -/
  outside : ∀ p ∈ lock.projects, project.contains p.root.text = false
  /-- The packages are those of the locked records of the root, each once. -/
  packages : ∀ p ∈ lock.projects, p.packages ≠ [] ∧ p.packages.Nodup ∧
    p.packages = ((j.filter (·.lockedRoot? lock = some p.root)).filterMap
      (p.root.relativePackage? ·.path)).eraseDups
  /-- Source and version are those of the first locked record. So is what is asked, which is nothing
  if there is neither a constraint nor a source. -/
  first : ∀ p ∈ lock.projects, ∃ e resolution,
    j.find? (·.lockedRoot? lock = some p.root) = some e ∧
      e.outcome = .first p.root (.ok resolution) ∧
      (∃ s, (resolve provider p.root e.record.source e.record.revision e.record.label s).1 =
        .ok resolution) ∧
      p.source = e.record.source ∧ p.version = resolution.version ∧
      ∀ asked, manifest.constraints.lookup? p.root = some asked ↔
        (resolution.constraint ≠ none ∨ e.record.source ≠ none) ∧
          asked = ⟨resolution.constraint, e.record.source⟩
  /-- Nothing is asked of other roots. -/
  unasked : ∀ root, lock.find? root = none → manifest.constraints.lookup? root = none

namespace Journal

/-- How a record ends, by what the deducer answered and whether its root is locked. -/
def Item.kind (project : ProjectRoot) (lock : Lock) (e : Item) : RecordClass :=
  match e.deduced? with
  | none => if project.contains e.path then .own else .ignored
  | some (.error _) => .rootless
  | some (.ok root) => if (lock.find? root).isSome then .locked else .lost

theorem Item.lockedRoot?_eq_some_iff {lock : Lock} {e : Item} {root : ProjectRoot} :
    e.lockedRoot? lock = some root ↔ e.root? = some root ∧ (lock.find? root).isSome = true := by
  unfold lockedRoot?
  rw [Option.filter_eq_some_iff]

/-- For a root of the lock, the locked records of the root are its records. -/
theorem Item.lockedRoot?_eq_root_iff {lock : Lock} {p : LockedProject} (hp : p ∈ lock.projects)
    (e : Item) : e.lockedRoot? lock = some p.root ↔ e.root? = some p.root := by
  rw [lockedRoot?_eq_some_iff]
  exact and_iff_left (Lock.find?_isSome_iff.mpr (List.mem_map_of_mem hp))

/-- A record for which the deducer was asked is neither the project's nor ignored. -/
theorem Item.Valid.of_deduced? {σ : Type} {provider : Provider σ} {project : ProjectRoot}
    {ignored : List String} {e : Item} (h : e.Valid provider project ignored)
    {answer : Except ResolveError ProjectRoot} (hdeduced : e.deduced? = some answer) :
    project.contains e.path = false ∧ e.path ∉ ignored := by
  unfold Valid at h
  unfold deduced? at hdeduced
  split at hdeduced <;> simp_all

end Journal

namespace Told

variable {σ : Type} {provider : Provider σ} {project : ProjectRoot} {ignored : List String}
  {j : Journal} {manifest : Manifest} {lock : Lock} {skipped : List SkippedRoot}

/-- The lock has the roots that were resolved. -/
theorem find?_isSome_iff (h : Told provider project ignored j manifest lock skipped)
    {root : ProjectRoot} : (lock.find? root).isSome = true ↔
      ∃ e ∈ j, ∃ resolution, e.outcome = .first root (.ok resolution) := by
  rw [Lock.find?_isSome_iff, h.projects, List.mem_map]
  constructor
  · rintro ⟨p, hp, rfl⟩
    obtain ⟨e, he, root, resolution, houtcome, rfl⟩ := mem_projects.mp hp
    exact ⟨e, he, resolution, houtcome⟩
  · rintro ⟨e, he, resolution, houtcome⟩
    exact ⟨_, mem_projects.mpr ⟨e, he, root, resolution, houtcome, rfl⟩, rfl⟩

/-- The lock does not have a root that could not be resolved. -/
theorem find?_eq_none_of_refused (h : Told provider project ignored j manifest lock skipped)
    {e : Item} (he : e ∈ j) {root : ProjectRoot} {error : ResolveError}
    (houtcome : e.outcome = .first root (.error error)) : lock.find? root = none := by
  rw [← Option.not_isSome_iff_eq_none, h.find?_isSome_iff]
  rintro ⟨e', he', resolution, houtcome'⟩
  rw [h.orderly.eq_of_outcome he he' houtcome houtcome', houtcome'] at houtcome
  exact absurd houtcome (by simp)

/-! ## The records -/

/-- A record whose root is not locked went with its root. -/
theorem falls_lost (h : Told provider project ignored j manifest lock skipped) {e : Item}
    (he : e ∈ j) {root : ProjectRoot} (hroot : e.root? = some root)
    (hlock : lock.find? root = none) : e.Falls project ignored j lock skipped .lost := by
  obtain ⟨first, hmem, hfirst, result, houtcome⟩ :=
    h.orderly.exists_firstOf? (mem_roots.mpr ⟨e, he, hroot⟩)
  cases result with
  | ok resolution =>
      have hsome := h.find?_isSome_iff.mpr ⟨first, hmem, resolution, houtcome⟩
      rw [hlock] at hsome
      exact absurd hsome (by simp)
  | error error =>
      have hskipped : first.skipped? = some ⟨root.text, error⟩ := by
        rw [Item.skipped?, houtcome]
      have hone : j.filter (·.first? = some root) = [first] :=
        h.orderly.filter_first?_eq hmem (Item.first?_of_outcome houtcome)
      refine .lost root error (Item.deduced?_eq_ok_iff.mpr hroot) first hfirst houtcome ?_ ?_ hlock
      · rw [hone, Journal.skipped, List.filterMap_cons_some hskipped, List.filterMap_nil]
      · rw [h.skipped]
        exact List.mem_filterMap.mpr ⟨first, hmem, hskipped⟩

/-- The package of a record is among those of the project of its root. -/
theorem exists_mem_packages (h : Told provider project ignored j manifest lock skipped) {e : Item}
    (he : e ∈ j) {p : LockedProject} (hp : p ∈ lock.projects) (hroot : e.root? = some p.root) :
    ∃ package, p.root.relativePackage? e.path = some package ∧ package ∈ p.packages := by
  have hcontains := ((h.valid e he).of_root? hroot).2
  obtain ⟨package, hpackage⟩ := ProjectRoot.exists_relativePackage_iff.mpr hcontains
  rw [h.projects] at hp
  refine ⟨package, hpackage, ?_⟩
  rw [packages_of_mem_projects hp, Journal.packages, List.mem_eraseDups, List.mem_filterMap]
  exact ⟨e, he, by rw [Item.package?, if_pos hroot, hpackage]⟩

/-- A record whose root is locked has its package there. -/
theorem falls_locked (h : Told provider project ignored j manifest lock skipped) {e : Item}
    (he : e ∈ j) {root : ProjectRoot} (hroot : e.root? = some root)
    (hlock : (lock.find? root).isSome = true) : e.Falls project ignored j lock skipped .locked := by
  obtain ⟨p, hp, rfl⟩ := List.mem_map.mp (Lock.find?_isSome_iff.mp hlock)
  obtain ⟨package, hpackage, hmem⟩ := h.exists_mem_packages he hp hroot
  exact .locked p package (Item.deduced?_eq_ok_iff.mpr hroot)
    (Lock.filter_root_eq h.nodup_roots hp) hpackage hmem

/-- A record with a root ends as its root does. -/
theorem falls_of_root? (h : Told provider project ignored j manifest lock skipped) {e : Item}
    (he : e ∈ j) {root : ProjectRoot} (hroot : e.root? = some root) :
    e.Falls project ignored j lock skipped (e.kind project lock) := by
  have hdeduced := Item.deduced?_eq_ok_iff.mpr hroot
  by_cases hlock : (lock.find? root).isSome = true
  · have hkind : e.kind project lock = .locked := by simp [Item.kind, hdeduced, hlock]
    rw [hkind]
    exact h.falls_locked he hroot hlock
  · have hkind : e.kind project lock = .lost := by simp [Item.kind, hdeduced, hlock]
    rw [hkind]
    exact h.falls_lost he hroot (Option.not_isSome_iff_eq_none.mp hlock)

/-- Every record ends in the way told from its outcome. -/
theorem falls_kind (h : Told provider project ignored j manifest lock skipped) {e : Item}
    (he : e ∈ j) : e.Falls project ignored j lock skipped (e.kind project lock) := by
  have hvalid := h.valid e he
  unfold Item.Valid at hvalid
  cases houtcome : e.outcome with
  | own =>
      rw [houtcome] at hvalid
      have hkind : e.kind project lock = .own := by
        simp [Item.kind, Item.deduced?, houtcome, hvalid]
      rw [hkind]
      exact .own hvalid
  | ignored =>
      rw [houtcome] at hvalid
      have hkind : e.kind project lock = .ignored := by
        simp [Item.kind, Item.deduced?, houtcome, hvalid.1]
      rw [hkind]
      exact .ignored hvalid.1 hvalid.2
  | rootless error =>
      have hdeduced : e.deduced? = some (.error error) := by rw [Item.deduced?, houtcome]
      have hskipped : e.skipped? = some ⟨e.path, error⟩ := by rw [Item.skipped?, houtcome]
      have hkind : e.kind project lock = .rootless := by simp [Item.kind, hdeduced]
      rw [hkind]
      refine .rootless error hdeduced ?_
      rw [h.skipped]
      exact List.mem_filterMap.mpr ⟨e, he, hskipped⟩
  | first root result => exact h.falls_of_root? he (Item.root?_of_outcome houtcome)
  | later root => exact h.falls_of_root? he (by rw [Item.root?, houtcome])

/-- A record ends in no other way. -/
theorem eq_kind_of_falls (h : Told provider project ignored j manifest lock skipped) {e : Item}
    (he : e ∈ j) {kind : RecordClass} (hfalls : e.Falls project ignored j lock skipped kind) :
    kind = e.kind project lock := by
  unfold Item.kind
  cases hfalls with
  | own hown =>
      cases hdeduced : e.deduced? with
      | none => simp [hown]
      | some answer =>
          have hother := ((h.valid e he).of_deduced? hdeduced).1
          rw [hown] at hother
          exact absurd hother (by simp)
  | ignored hown hignored =>
      cases hdeduced : e.deduced? with
      | none => simp [hown]
      | some answer => exact absurd hignored ((h.valid e he).of_deduced? hdeduced).2
  | rootless error hdeduced _ => simp [hdeduced]
  | lost root error hdeduced _ _ _ _ _ hlock => simp [hdeduced, hlock]
  | locked p package hdeduced hone _ _ => simp [hdeduced, Lock.find?_isSome_of_filter_eq hone]

/-- A record ends in the lock if its root is there. -/
theorem falls_locked_iff (h : Told provider project ignored j manifest lock skipped) {e : Item}
    (he : e ∈ j) : e.Falls project ignored j lock skipped .locked ↔
      (e.lockedRoot? lock).isSome = true := by
  constructor
  · intro hfalls
    cases hfalls with
    | locked p package hdeduced hone _ _ =>
        have hlock := Lock.find?_isSome_of_filter_eq hone
        rw [Item.lockedRoot?_eq_some_iff.mpr ⟨Item.deduced?_eq_ok_iff.mp hdeduced, hlock⟩]
        rfl
  · intro hsome
    obtain ⟨root, hlocked⟩ := Option.isSome_iff_exists.mp hsome
    obtain ⟨hroot, hlock⟩ := Item.lockedRoot?_eq_some_iff.mp hlocked
    exact h.falls_locked he hroot hlock

/-! ## The locked roots -/

/-- The locked roots are those that could be resolved, in the order of resolution. -/
theorem roots_eq (h : Told provider project ignored j manifest lock skipped) :
    lock.projects.map (·.root) =
      (j.filterMap Item.first?).filter fun root => (lock.find? root).isSome := by
  rw [h.projects, Journal.projects, List.map_filterMap, List.filter_filterMap]
  refine List.filterMap_congr fun e he => ?_
  unfold project? Item.first?
  cases houtcome : e.outcome with
  | first root result =>
      cases result with
      | ok resolution =>
          have hlock := h.find?_isSome_iff.mpr ⟨e, he, resolution, houtcome⟩
          simp [Option.filter, hlock]
      | error error => simp [Option.filter, h.find?_eq_none_of_refused he houtcome]
  | own => rfl
  | ignored => rfl
  | rootless error => rfl
  | later root => rfl

/-- The locked roots come in the order of their first records. -/
theorem roots_eq_eraseDups (h : Told provider project ignored j manifest lock skipped) :
    lock.projects.map (·.root) = (j.filterMap (Item.lockedRoot? lock)).eraseDups := by
  rw [h.roots_eq, h.orderly.filterMap_first?_eq, ← eraseDups_filter, Journal.roots,
    List.filter_filterMap]
  rfl

/-- The project does not contain a root that is locked. -/
theorem contains_root_eq_false (h : Told provider project ignored j manifest lock skipped)
    {p : LockedProject} (hp : p ∈ lock.projects) : project.contains p.root.text = false := by
  rw [h.projects] at hp
  obtain ⟨e, he, hroot⟩ := mem_roots.mp (root_mem_roots hp)
  obtain ⟨⟨hown, _⟩, hcontains⟩ := (h.valid e he).of_root? hroot
  -- Else the record would lie in the project as well.
  cases hinside : project.contains p.root.text with
  | false => rfl
  | true =>
      rw [ProjectRoot.contains_trans hinside hcontains] at hown
      exact absurd hown (by simp)

/-- The packages of a locked root are those of its records. -/
theorem packages_eq (h : Told provider project ignored j manifest lock skipped)
    {p : LockedProject} (hp : p ∈ lock.projects) :
    p.packages = ((j.filter (·.lockedRoot? lock = some p.root)).filterMap
      (p.root.relativePackage? ·.path)).eraseDups := by
  have hlocked := Item.lockedRoot?_eq_root_iff hp
  rw [h.projects] at hp
  rw [packages_of_mem_projects hp, Journal.packages, List.filterMap_filter]
  congr 1
  refine List.filterMap_congr fun e _ => ?_
  unfold Item.package?
  by_cases hroot : e.root? = some p.root
  · simp [hroot, (hlocked e).mpr hroot]
  · simp [hroot, (hlocked e).not.mpr hroot]

/-- A locked root has a package in use. -/
theorem packages_ne_nil (h : Told provider project ignored j manifest lock skipped)
    {p : LockedProject} (hp : p ∈ lock.projects) : p.packages ≠ [] := by
  obtain ⟨e, he, hroot⟩ := mem_roots.mp (root_mem_roots (h.projects ▸ hp))
  obtain ⟨package, _, hmem⟩ := h.exists_mem_packages he hp hroot
  exact List.ne_nil_of_mem hmem

/-- The first record of a locked root decides its source, its version and what is asked. -/
theorem exists_first (h : Told provider project ignored j manifest lock skipped)
    {p : LockedProject} (hp : p ∈ lock.projects) : ∃ e resolution,
      j.find? (·.lockedRoot? lock = some p.root) = some e ∧
        e.outcome = .first p.root (.ok resolution) ∧
        (∃ s, (resolve provider p.root e.record.source e.record.revision e.record.label s).1 =
          .ok resolution) ∧
        p.source = e.record.source ∧ p.version = resolution.version ∧
        ∀ asked, manifest.constraints.lookup? p.root = some asked ↔
          (resolution.constraint ≠ none ∨ e.record.source ≠ none) ∧
            asked = ⟨resolution.constraint, e.record.source⟩ := by
  have hlocked : (fun e : Item => decide (e.lockedRoot? lock = some p.root)) =
      fun e => decide (e.root? = some p.root) :=
    funext fun e => decide_eq_decide.mpr (Item.lockedRoot?_eq_root_iff hp e)
  rw [hlocked]
  rw [h.projects] at hp
  obtain ⟨e, he, root, resolution, houtcome, rfl⟩ := mem_projects.mp hp
  have hfirst := h.orderly.firstOf?_eq he (Item.first?_of_outcome houtcome)
  have hvalid := h.valid e he
  rw [Item.Valid, houtcome] at hvalid
  refine ⟨e, resolution, hfirst, houtcome, hvalid.2.2, rfl, rfl, fun asked => ?_⟩
  rw [h.asked, h.orderly.lookup_asked_eq he houtcome, Conversion.properties?_eq_some_iff]

/-- Nothing is asked of a root that is not locked. -/
theorem lookup?_eq_none (h : Told provider project ignored j manifest lock skipped)
    {root : ProjectRoot} (hlock : lock.find? root = none) :
    manifest.constraints.lookup? root = none := by
  rw [h.asked]
  refine lookup_asked_eq_none fun e he resolution houtcome => ?_
  have hsome := h.find?_isSome_iff.mpr ⟨e, he, resolution, houtcome⟩
  rw [hlock] at hsome
  exact absurd hsome (by simp)

end Told

/-! ## The account -/

/-- A conversion that succeeds accounts for every record, and for all that it locks, asks and
leaves out. What the journal says of a record's root is what the deducer of the run answered. -/
theorem accounted_of_convert {σ : Type} {provider : Provider σ} {project : ProjectRoot}
    {config : LoadedConfig} {ignored : List String} {k k' : Converter σ} {manifest : Manifest}
    {lock : Lock} (h : k.convert provider project config ignored = (.ok (manifest, lock), k')) :
    Accounted provider project (config.ignored ++ ignored)
        (k.journal provider project config ignored) manifest lock k'.skipped ∧
      (k.journal provider project config ignored).map (·.record) = config.records ∧
      ∀ records record others, config.records = records ++ record :: others →
        ∃ e c, (k.journal provider project config ignored)[records.length]? = some e ∧
          e.record = record ∧
          c = records.foldl (Conversion.step provider project (config.ignored ++ ignored))
            (.start k.session) ∧
          (project.contains e.path = false → e.path ∉ config.ignored ++ ignored →
            e.deduced? = some (c.deducer.deduce provider e.path c.session).1) := by
  have htold := Converter.told_of_convert h
  refine ⟨?_, Conversion.map_record_journal _ _ _ _ _, ?_⟩
  · exact {
      classes := fun e he =>
        ⟨e.kind project lock, htold.falls_kind he, fun _ => htold.eq_kind_of_falls he⟩
      locked := fun e he => htold.falls_locked_iff he
      skipped := htold.skipped
      distinct := htold.nodup_roots
      order := htold.roots_eq_eraseDups
      outside := fun p hp => htold.contains_root_eq_false hp
      packages := fun p hp =>
        ⟨htold.packages_ne_nil hp, htold.nodup_packages hp, htold.packages_eq hp⟩
      first := fun p hp => htold.exists_first hp
      unasked := fun root hlock => htold.lookup?_eq_none hlock }
  · intro records record others hrecords
    refine ⟨_, _, ?_, rfl, rfl, fun hown hignored => Conversion.deduced?_outcome hown hignored⟩
    rw [Converter.journal, hrecords]
    exact Conversion.getElem?_journal _ _ _ _ records others record

namespace FiveWays

/-- One repository with one tag. -/
def provider : Provider Unit :=
  .ofTable "table"
    [("github.com/x/dep", [⟨.ofTag "v1.0.0", ⟨"ff2948a"⟩⟩])] []

def project : ProjectRoot := .ofString "github.com/x/app"

/-- Records that end in all five ways. -/
def config : LoadedConfig where
  records := [
    .new "github.com/x/app/foo" "ff2948a", .new "github.com/x/lint" "ff2948a",
    .new "nowhere" "ff2948a", .new "github.com/x/gone/foo" "ff2948a",
    .new "/github.com/x/dep/foo/" "ff2948a", .new "github.com/x/dep" "ff2948a"]
  ignored := ["github.com/x/lint"]
  file := none

def done : Conversion Unit :=
  .run provider project config.records (config.ignored ++ []) (.start ())

def journal : Journal :=
  (Converter.new (.start ())).journal provider project config []

end FiveWays

open FiveWays in
theorem accounted_of_convert_fiveWays :
    (Converter.new (.start ())).convert provider project config [] =
        (.ok (done.manifest, done.lock), ⟨done.skipped, done.session⟩) ∧
      Accounted provider project (config.ignored ++ []) journal done.manifest done.lock
        done.skipped ∧
      journal.map (·.kind project done.lock) =
        [.own, .ignored, .rootless, .lost, .locked, .locked] := by
  have hrun := Converter.convert_eq_run (by decide : config.error? = none) provider project []
    (.new (.start ())) (rfl : _ = done)
  exact ⟨hrun, (accounted_of_convert hrun).1, by decide +kernel⟩

end Relock
