import Relock.Proofs.Convert.Listings
import Relock.Proofs.Root.Rootless

/-!
# How often a dependency is left out

A dependency is left out for one of two reasons, and the two are counted in different ways:

* a root that cannot be resolved is remembered as failed, so it leaves **one entry**, whatever the
  number of its records;
* a path without a root is remembered as well, but what is remembered is answered to each of its
  records, so it leaves **an entry for each record**.

`leftOut_of_convert` says so for every provider that answers existence by a fixed function. What a
path gets then depends on the path alone (`Journal.Grounded`), with one exception: a bare host,
which is found for a path with an empty second segment, stands in for paths that had no root before.
It can also be left out for both reasons.
-/

namespace Relock

open Deducer (IsHostOf)

namespace Journal

/-! ## What a journal leaves out -/

/-- The path for which no root was found in the turn of the record. -/
def Item.rootless? (e : Item) : Option String :=
  match e.outcome with
  | .rootless _ => some e.path
  | _ => none

theorem Item.rootless?_eq_some_iff {e : Item} {path : String} :
    e.rootless? = some path ↔ (∃ error, e.outcome = .rootless error) ∧ e.path = path := by
  unfold rootless?
  split
  · next error houtcome => simp [houtcome]
  · next hother =>
    constructor
    · intro h
      exact absurd h (by simp)
    · rintro ⟨⟨error, houtcome⟩, -⟩
      exact absurd houtcome (hother error)

theorem Item.refused?_eq_some_iff {e : Item} {root : ProjectRoot} :
    e.refused? = some root ↔ ∃ error, e.outcome = .first root (.error error) := by
  unfold refused?
  split
  · next found error houtcome => simp [houtcome]
  · next hother =>
    constructor
    · intro h
      exact absurd h (by simp)
    · rintro ⟨error, houtcome⟩
      exact absurd houtcome (hother root error)

def paths (j : Journal) : List String :=
  j.map Item.path

/-- The paths for which no root was found, record by record. -/
def rootless (j : Journal) : List String :=
  j.filterMap Item.rootless?

/-- The roots that could not be resolved. -/
def refused (j : Journal) : List ProjectRoot :=
  j.filterMap Item.refused?

theorem mem_rootless {j : Journal} {path : String} :
    path ∈ j.rootless ↔ ∃ e ∈ j, (∃ error, e.outcome = .rootless error) ∧ e.path = path := by
  simp only [rootless, List.mem_filterMap, Item.rootless?_eq_some_iff]

theorem mem_refused {j : Journal} {root : ProjectRoot} :
    root ∈ j.refused ↔ ∃ e ∈ j, ∃ error, e.outcome = .first root (.error error) := by
  simp only [refused, List.mem_filterMap, Item.refused?_eq_some_iff]

/-- A record leaves its path out, or its root, or nothing. -/
theorem importPath_skipped_perm (j : Journal) :
    (j.skipped.map (·.importPath)).Perm (j.rootless ++ j.refused.map (·.text)) := by
  induction j with
  | nil => exact .nil
  | cons e j ih =>
      obtain ⟨record, outcome⟩ := e
      cases outcome with
      | own => exact ih
      | ignored => exact ih
      | rootless error => exact ih.cons (trimSlashes record.importPath)
      | later root => exact ih
      | first root result =>
          cases result with
          | ok resolution => exact ih
          | error error => exact (ih.cons root.text).trans List.perm_middle.symm

/-- No root fails twice. -/
theorem Orderly.nodup_refused {j : Journal} (h : j.Orderly) : j.refused.Nodup := by
  have hfirst : (j.filterMap Item.first?).Nodup := by
    rw [h.filterMap_first?_eq]
    exact nodup_eraseDups _
  exact ((first?_perm j).nodup hfirst).of_append_right

/-! ## What a path gets -/

variable {existence : ProjectRoot → Except SourceError Bool} {given : List String} {j : Journal}

/-- What the deducer answered for the record comes from a search: for the path itself if it has no
root, and else for one of the given paths. -/
def Item.Grounded (existence : ProjectRoot → Except SourceError Bool) (given : List String)
    (e : Item) : Prop :=
  match e.deduced? with
  | none => True
  | some (.ok root) => ∃ asked ∈ given, Deducer.searched existence asked = .ok (some root)
  | some (.error error) => Deducer.whyRootless? existence e.path = some error

theorem Item.Grounded.whyRootless? {e : Item} (h : e.Grounded existence given)
    {error : ResolveError} (houtcome : e.outcome = .rootless error) :
    Deducer.whyRootless? existence e.path = some error := by
  simpa [Grounded, deduced?, houtcome] using h

theorem Item.Grounded.exists_searched {e : Item} (h : e.Grounded existence given)
    {root : ProjectRoot} (hroot : e.root? = some root) :
    ∃ asked ∈ given, Deducer.searched existence asked = .ok (some root) := by
  simpa [Grounded, deduced?_eq_ok_iff.mpr hroot] using h

/-- All that was deduced comes from searches for the given paths. -/
def Grounded (existence : ProjectRoot → Except SourceError Bool) (given : List String)
    (j : Journal) : Prop :=
  ∀ e ∈ j, e.Grounded existence given

/-- A root that came up in a journal and contains a path without a root is a bare host. -/
theorem Grounded.exists_isHostOf (h : j.Grounded existence given) {e e' : Item} (he : e ∈ j)
    (he' : e' ∈ j) {error : ResolveError} (houtcome : e.outcome = .rootless error)
    {root : ProjectRoot} (hroot : e'.root? = some root) (hcontains : root.contains e.path = true) :
    ∃ asked ∈ given, IsHostOf root asked := by
  obtain ⟨asked, hasked, hsearched⟩ := (h e' he').exists_searched hroot
  exact ⟨asked, hasked,
    Deducer.isHostOf_of_rootless hsearched hcontains ((h e he).whyRootless? houtcome)⟩

end Journal

/-! ## The step and the run -/

namespace Conversion

variable {σ : Type} {provider : Provider σ} {project : ProjectRoot} {ignored : List String}
  {existence : ProjectRoot → Except SourceError Bool} {given : List String}

/-- With a grounded deducer a record gets what comes from a search, and the deducer stays
grounded. -/
theorem grounded_step (h : provider.AnswersExistence existence) {c c' : Conversion σ}
    (hc : c.deducer.Grounded existence given) {record : ImportRecord}
    (hgiven : trimSlashes record.importPath ∈ given)
    (hturn : Turn provider project ignored c record
      (outcome provider project ignored c record) c') :
    Journal.Item.Grounded existence given ⟨record, outcome provider project ignored c record⟩ ∧
      c'.deducer.Grounded existence given := by
  have hpath : trimSlashes (trimSlashes record.importPath) ∈ given := by
    rwa [trimSlashes_trimSlashes]
  obtain ⟨hafter, hresult⟩ := hc.deduce h hpath c.session
  constructor
  · unfold Journal.Item.Grounded
    -- nothing is deduced for the project itself or for a package to ignore
    by_cases hown : project.contains (trimSlashes record.importPath) = true
    · simp [Journal.Item.deduced?, outcome, hown]
    by_cases hignored : trimSlashes record.importPath ∈ ignored
    · simp [Journal.Item.deduced?, outcome, hown, hignored]
    rw [deduced?_outcome (by simpa using hown) hignored]
    cases hdeduce : (c.deducer.deduce provider (trimSlashes record.importPath) c.session).1 with
    | ok root =>
        rw [hdeduce] at hresult
        exact hafter.roots root hresult
    | error error =>
        rw [hdeduce, trimSlashes_trimSlashes] at hresult
        exact hresult
  · rcases hturn.deducer with hsame | hasked
    · rwa [hsame]
    · rwa [hasked]

end Conversion

theorem Books.grounded_journal {σ : Type} {provider : Provider σ} {project : ProjectRoot}
    {ignored : List String} {existence : ProjectRoot → Except SourceError Bool}
    (h : provider.AnswersExistence existence) {j : Journal} {c : Conversion σ}
    (hbooks : Books provider project ignored j c) {given : List String}
    (hc : c.deducer.Grounded existence given) {records : List ImportRecord}
    (hgiven : ∀ record ∈ records, trimSlashes record.importPath ∈ given) :
    (Conversion.journal provider project ignored c records).Grounded existence given := by
  induction records generalizing j c with
  | nil => exact fun e he => absurd he (by simp [Conversion.journal])
  | cons record records ih =>
      have hturn := Conversion.turn_step provider project ignored c record
        fun _ => hbooks.seen_of_failed
      obtain ⟨hitem, hdeducer⟩ :=
        Conversion.grounded_step h hc (hgiven record List.mem_cons_self) hturn
      have hrest := ih (hbooks.turn hturn) hdeducer fun other hother =>
        hgiven other (List.mem_cons_of_mem _ hother)
      intro e he
      rcases List.mem_cons.mp he with rfl | hlater
      · exact hitem
      · exact hrest e hlater

/-! ## Entries of a whole conversion -/

/-- What is left out for records with some paths. No root is found for `rootless`, record by record,
and the roots `failed` cannot be resolved. -/
structure LeftOut (paths rootless : List String) (failed : List ProjectRoot)
    (skipped : List SkippedRoot) : Prop where
  /-- Every record without a root leaves its path out, and every failed root itself. -/
  entries : (skipped.map (·.importPath)).Perm (rootless ++ failed.map (·.text))
  /-- No root fails twice. -/
  distinct : failed.Nodup
  /-- A failed root leaves one entry, unless it is a bare host. -/
  once : ∀ root ∈ failed, (∀ asked ∈ paths, ¬ IsHostOf root asked) →
    (skipped.map (·.importPath)).count root.text = 1
  /-- A path without a root leaves as many entries as records have it, unless it lies in a bare
  host. -/
  repeated : ∀ path ∈ rootless,
    (∀ root, root.contains path = true → ∀ asked ∈ paths, ¬ IsHostOf root asked) →
      (skipped.map (·.importPath)).count path = paths.count path
  /-- Two entries of a path have the same reason, unless the path is a bare host. -/
  same : ∀ entry ∈ skipped, ∀ other ∈ skipped, entry.importPath = other.importPath →
    entry = other ∨ ∃ root : ProjectRoot, root.text = entry.importPath ∧
      ∃ asked ∈ paths, IsHostOf root asked
  /-- Without bare hosts the entries are distinct just if no two records have the same path
  without a root. -/
  distinct_iff : (∀ root, ∀ asked ∈ paths, ¬ IsHostOf root asked) →
    ((skipped.map (·.importPath)).Nodup ↔ ∀ path ∈ rootless, paths.count path = 1)

namespace Told

open Journal

variable {σ : Type} {provider : Provider σ} {project : ProjectRoot} {ignored : List String}
  {j : Journal} {manifest : Manifest} {lock : Lock} {skipped : List SkippedRoot}
  {existence : ProjectRoot → Except SourceError Bool} {paths : List String}

/-- Outside of bare hosts a path has no root for any of its records if it has none for one. -/
theorem rootless?_eq_some (h : Told provider project ignored j manifest lock skipped)
    (hgrounded : j.Grounded existence paths) {e e' : Item} (he : e ∈ j) (he' : e' ∈ j)
    {error : ResolveError} (houtcome : e.outcome = .rootless error) (hpath : e'.path = e.path)
    (hhosts : ∀ root, root.contains e.path = true → ∀ asked ∈ paths, ¬ IsHostOf root asked) :
    e'.rootless? = some e.path := by
  have hvalid := h.valid e he
  have hvalid' := h.valid e' he'
  rw [Item.Valid, houtcome] at hvalid
  -- a root that contains the path would be the bare host of another one
  have hroot : ∀ root, e'.root? ≠ some root := by
    intro root hroot
    have hcontains : root.contains e.path = true := hpath ▸ (hvalid'.of_root? hroot).2
    obtain ⟨asked, hasked, hhost⟩ :=
      hgrounded.exists_isHostOf he he' houtcome hroot hcontains
    exact hhosts root hcontains asked hasked hhost
  refine Item.rootless?_eq_some_iff.mpr ⟨?_, hpath⟩
  cases houtcome' : e'.outcome with
  | rootless error' => exact ⟨error', rfl⟩
  | own =>
      rw [Item.Valid, houtcome', hpath, hvalid.1] at hvalid'
      exact absurd hvalid' (by simp)
  | ignored =>
      rw [Item.Valid, houtcome', hpath] at hvalid'
      exact absurd hvalid'.2 hvalid.2
  | first root result => exact absurd (Item.root?_of_outcome houtcome') (hroot root)
  | later root => exact absurd (by rw [Item.root?, houtcome']) (hroot root)

/-- Only a bare host is left out for both reasons. -/
theorem exists_isHostOf_of_mem_rootless (hgrounded : j.Grounded existence paths)
    {root : ProjectRoot} (hroot : root ∈ j.refused) (hrootless : root.text ∈ j.rootless) :
    ∃ asked ∈ paths, IsHostOf root asked := by
  obtain ⟨e, he, ⟨error, houtcome⟩, hpath⟩ := mem_rootless.mp hrootless
  obtain ⟨e', he', error', houtcome'⟩ := mem_refused.mp hroot
  refine hgrounded.exists_isHostOf he he' houtcome (Item.root?_of_outcome houtcome') ?_
  rw [hpath, ProjectRoot.contains_self]

/-- Outside of bare hosts a path without a root leaves an entry for each of its records. -/
theorem count_rootless (h : Told provider project ignored j manifest lock skipped)
    (hgrounded : j.Grounded existence paths) {path : String} (hpath : path ∈ j.rootless)
    (hhosts : ∀ root, root.contains path = true → ∀ asked ∈ paths, ¬ IsHostOf root asked) :
    (skipped.map (·.importPath)).count path = j.paths.count path := by
  obtain ⟨e, he, ⟨error, houtcome⟩, rfl⟩ := mem_rootless.mp hpath
  -- the list has roots as well, and none of them is written like this path
  have hrefused : e.path ∉ j.refused.map (·.text) := by
    intro hmem
    obtain ⟨root, hroot, htext⟩ := List.mem_map.mp hmem
    obtain ⟨asked, hasked, hhost⟩ :=
      exists_isHostOf_of_mem_rootless hgrounded hroot (htext.symm ▸ hpath)
    exact hhosts root (htext ▸ ProjectRoot.contains_self root) asked hasked hhost
  rw [h.skipped, (importPath_skipped_perm j).count_eq, List.count_append,
    List.count_eq_zero.mpr hrefused, Nat.add_zero]
  unfold rootless Journal.paths List.count
  rw [List.countP_filterMap, List.countP_map]
  apply List.countP_congr
  intro e' he'
  cases hsome : e'.rootless? with
  | some other =>
      obtain ⟨-, rfl⟩ := Item.rootless?_eq_some_iff.mp hsome
      simp
  | none =>
      -- each record of this path is left out for want of a root, not only the first
      have hother : e'.path ≠ e.path := by
        intro hsame
        rw [h.rootless?_eq_some hgrounded he he' houtcome hsame hhosts] at hsome
        exact absurd hsome (by simp)
      simp [hother]

/-- A root that could not be resolved leaves one entry, unless it is a bare host. -/
theorem count_refused (h : Told provider project ignored j manifest lock skipped)
    (hgrounded : j.Grounded existence paths) {root : ProjectRoot} (hroot : root ∈ j.refused)
    (hhosts : ∀ asked ∈ paths, ¬ IsHostOf root asked) :
    (skipped.map (·.importPath)).count root.text = 1 := by
  have hrootless : root.text ∉ j.rootless := by
    intro hmem
    obtain ⟨asked, hasked, hhost⟩ := exists_isHostOf_of_mem_rootless hgrounded hroot hmem
    exact hhosts asked hasked hhost
  have htexts : (j.refused.map (·.text)).Nodup :=
    h.orderly.nodup_refused.map ProjectRoot.text_injective
  rw [h.skipped, (importPath_skipped_perm j).count_eq, List.count_append,
    List.count_eq_zero.mpr hrootless, Nat.zero_add]
  exact List.count_eq_one_of_mem htexts (List.mem_map_of_mem hroot)

/-- Two entries of a path are for the same reason, or a bare host was left out for both. -/
theorem eq_or_exists_isHostOf (h : Told provider project ignored j manifest lock skipped)
    (hgrounded : j.Grounded existence paths) {e e' : Item} (he : e ∈ j) (he' : e' ∈ j)
    {entry other : SkippedRoot} (hentry : e.skipped? = some entry)
    (hother : e'.skipped? = some other) (hpath : entry.importPath = other.importPath) :
    entry = other ∨ ∃ root : ProjectRoot, root.text = entry.importPath ∧
      ∃ asked ∈ paths, IsHostOf root asked := by
  unfold Item.skipped? at hentry hother
  split at hentry
  · next error houtcome =>
    obtain rfl := Option.some.inj hentry
    split at hother
    · next error' houtcome' =>
      -- both have no root, and why is told by the path alone
      obtain rfl := Option.some.inj hother
      have hwhy := (hgrounded e he).whyRootless? houtcome
      have hwhy' := (hgrounded e' he').whyRootless? houtcome'
      dsimp only at hpath
      rw [hpath, hwhy'] at hwhy
      exact .inl (by rw [hpath, Option.some.inj hwhy])
    · next root error' houtcome' =>
      obtain rfl := Option.some.inj hother
      refine .inr ⟨root, hpath.symm, hgrounded.exists_isHostOf he he' houtcome
        (Item.root?_of_outcome houtcome') ?_⟩
      rw [show e.path = root.text from hpath, ProjectRoot.contains_self]
    · exact absurd hother (by simp)
  · next root error houtcome =>
    obtain rfl := Option.some.inj hentry
    split at hother
    · next error' houtcome' =>
      obtain rfl := Option.some.inj hother
      refine .inr ⟨root, rfl, hgrounded.exists_isHostOf he' he houtcome'
        (Item.root?_of_outcome houtcome) ?_⟩
      rw [show e'.path = root.text from hpath.symm, ProjectRoot.contains_self]
    · next root' error' houtcome' =>
      -- a root is resolved in one turn only
      obtain rfl := Option.some.inj hother
      obtain rfl : root = root' := ProjectRoot.text_injective hpath
      obtain rfl := h.orderly.eq_of_outcome he he' houtcome houtcome'
      rw [houtcome] at houtcome'
      cases houtcome'
      exact .inl rfl
    · exact absurd hother (by simp)
  · exact absurd hentry (by simp)

/-- Without bare hosts the entries are distinct just if no two records have the same path without a
root. -/
theorem nodup_iff (h : Told provider project ignored j manifest lock skipped)
    (hgrounded : j.Grounded existence paths)
    (hhosts : ∀ root, ∀ asked ∈ paths, ¬ IsHostOf root asked) :
    (skipped.map (·.importPath)).Nodup ↔ ∀ path ∈ j.rootless, j.paths.count path = 1 := by
  have hentries := importPath_skipped_perm j
  rw [← h.skipped] at hentries
  constructor
  · intro hnodup path hpath
    rw [← h.count_rootless hgrounded hpath fun root _ => hhosts root]
    exact List.count_eq_one_of_mem hnodup (hentries.mem_iff.mpr (List.mem_append_left _ hpath))
  · intro hone
    rw [List.nodup_iff_count_eq_one]
    intro path hpath
    rcases List.mem_append.mp (hentries.mem_iff.mp hpath) with hrootless | htext
    · rw [h.count_rootless hgrounded hrootless fun root _ => hhosts root]
      exact hone path hrootless
    · obtain ⟨root, hroot, rfl⟩ := List.mem_map.mp htext
      exact h.count_refused hgrounded hroot (hhosts root)

/-- What a journal leaves out. -/
theorem leftOut (h : Told provider project ignored j manifest lock skipped)
    (hgrounded : j.Grounded existence j.paths) :
    LeftOut j.paths j.rootless j.refused.reverse skipped where
  entries := by
    rw [h.skipped]
    have hreverse := (List.reverse_perm j.refused).map ProjectRoot.text
    exact (importPath_skipped_perm j).trans (hreverse.symm.append_left _)
  distinct := List.nodup_reverse.mpr h.orderly.nodup_refused
  once root hroot := h.count_refused hgrounded (List.mem_reverse.mp hroot)
  repeated path := h.count_rootless hgrounded
  same entry hentry other hother hpath := by
    rw [h.skipped] at hentry hother
    obtain ⟨e, he, hsome⟩ := List.mem_filterMap.mp hentry
    obtain ⟨e', he', hsome'⟩ := List.mem_filterMap.mp hother
    exact h.eq_or_exists_isHostOf hgrounded he he' hsome hsome' hpath
  distinct_iff := h.nodup_iff hgrounded

end Told

/-- A conversion leaves a root that cannot be resolved out once, and a path without a root once for
each record that has it. -/
theorem leftOut_of_convert {σ : Type} {provider : Provider σ}
    {existence : ProjectRoot → Except SourceError Bool}
    (hprovider : provider.AnswersExistence existence) {project : ProjectRoot}
    {config : LoadedConfig} {ignored : List String} {k k' : Converter σ} {manifest : Manifest}
    {lock : Lock} (h : k.convert provider project config ignored = (.ok (manifest, lock), k')) :
    LeftOut (config.records.map fun record => trimSlashes record.importPath)
      (k.journal provider project config ignored).rootless
      (Conversion.run provider project config.records (config.ignored ++ ignored)
        k.session).failed
      k'.skipped := by
  have hpaths : (k.journal provider project config ignored).paths =
      config.records.map fun record => trimSlashes record.importPath := by
    conv_rhs =>
      rw [← Conversion.map_record_journal provider project (config.ignored ++ ignored)
        (.start k.session) config.records, List.map_map]
    rfl
  have hgrounded : (k.journal provider project config ignored).Grounded existence
      (config.records.map fun record => trimSlashes record.importPath) :=
    (Books.start provider project (config.ignored ++ ignored) k.session).grounded_journal hprovider
      (Deducer.grounded_empty _) fun record hrecord => List.mem_map.mpr ⟨record, hrecord, rfl⟩
  rw [(Conversion.listings_run provider project (config.ignored ++ ignored) config.records
    k.session).2, ← hpaths]
  exact (Converter.told_of_convert h).leftOut (hpaths ▸ hgrounded)

namespace NamedTwice

def revision : String := "ff2948a2ac8f538c4ecd55962e919d1e13e74baf"

/-- There is a repository at a bare host, and none anywhere else. -/
def existence (root : ProjectRoot) : Except SourceError Bool :=
  .ok (root.text = "localhost")

def versions (_root : ProjectRoot) (_source : Option String) :
    Except SourceError (List PairedVersion) :=
  .error (.other (.own "connection reset by peer"))

def provider : Provider Unit := .fixed "named twice" versions existence

def project : ProjectRoot := .ofString "github.com/golang/notexist"

def dep : ProjectRoot := .ofString "github.com/x/dep"

def config (paths : List String) : LoadedConfig where
  records := paths.map fun path => .new path revision
  ignored := []
  file := none

/-- A path without a root and a root that cannot be resolved, each in two records. -/
def repeated : LoadedConfig :=
  config ["nowhere/pkg", "github.com/x/dep", "/nowhere/pkg/", "github.com/x/dep/sub"]

/-- A path without a root that is found as a root for the second record. -/
def host : LoadedConfig := config ["localhost", "localhost//pkg"]

def done (config : LoadedConfig) : Conversion Unit :=
  .run provider project config.records (config.ignored ++ []) (.start ())

theorem convert_eq_done {config : LoadedConfig} (h : config.error? = none) :
    (Converter.new (.start ())).convert provider project config [] =
      (.ok ((done config).manifest, (done config).lock),
        ⟨(done config).skipped, (done config).session⟩) :=
  Converter.convert_eq_run h provider project [] _ rfl

end NamedTwice

open NamedTwice in
/-- With a provider that answers by fixed functions one path is left out twice: as a path without a
root for each of its records, or as such a path and as a root that cannot be resolved. -/
theorem exists_leftOut_namedTwice :
    provider.AnswersExistence existence ∧ provider.TellsVersions versions ∧
      (∃ manifest lock k, (Converter.new (.start ())).convert provider project repeated [] =
        (.ok (manifest, lock), k) ∧ ¬ (k.skipped.map (·.importPath)).Nodup) ∧
      ∃ manifest lock k, (Converter.new (.start ())).convert provider project host [] =
        (.ok (manifest, lock), k) ∧ k.skipped.map (·.importPath) = ["localhost", "localhost"] := by
  refine ⟨fun root state => rfl, fun root source state => rfl,
    ⟨_, _, _, convert_eq_done (by decide), ?_⟩, ⟨_, _, _, convert_eq_done (by decide), ?_⟩⟩
  · decide +kernel
  · decide +kernel

open NamedTwice in
theorem leftOut_of_convert_namedTwice :
    provider.AnswersExistence existence ∧
      (Converter.new (.start ())).convert provider project repeated [] =
        (.ok ((done repeated).manifest, (done repeated).lock),
          ⟨(done repeated).skipped, (done repeated).session⟩) ∧
      ((done repeated).skipped.map (·.importPath)).count "nowhere/pkg" = 2 ∧
      ((done repeated).skipped.map (·.importPath)).count "github.com/x/dep" = 1 := by
  have hprovider : provider.AnswersExistence existence := fun root state => rfl
  have hconvert := @convert_eq_done repeated (by decide)
  have hleft := leftOut_of_convert hprovider hconvert
  -- no record has an empty second segment
  have hhosts : ∀ root, ∀ asked ∈ repeated.records.map fun record => trimSlashes record.importPath,
      ¬ IsHostOf root asked := by
    rintro root asked hasked ⟨back, hback⟩
    have hsecond : ∀ asked ∈ repeated.records.map fun record => trimSlashes record.importPath,
        (segments asked.toList)[1]? ≠ some [] := by decide +kernel
    exact hsecond asked hasked (by rw [hback]; rfl)
  refine ⟨hprovider, hconvert, ?_, ?_⟩
  · have hcount := hleft.repeated "nowhere/pkg" (by decide +kernel) fun root _ => hhosts root
    rw [hcount]
    decide +kernel
  · have htext : dep.text = "github.com/x/dep" := by decide +kernel
    rw [← htext, hleft.once dep (by decide +kernel) (hhosts dep)]

end Relock
