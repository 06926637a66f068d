import Mathlib.Data.List.Forall2
import Mathlib.Data.List.Nodup
import Relock.Metadata.Glide
import Relock.Proofs.Record

/-!
# What two files tell of a dependency

`Joined` says what is recorded of a dependency, given the entries that the lock has: the last entry
of the dependency's name counts (`LastOf`), and of all others nothing is taken.

* Each dependency is recorded so, once and in order (`joined_records`).
* Nothing else of the lock matters (`records_congr`): neither the order of entries with different
  names, nor entries of packages that are no dependencies.
-/

namespace Relock.GlideFile

/-- The entries of a lock, if there is one; those of the tests are last. -/
def pins (lock : Option GlideLock) : List GlideEntry :=
  lock.elim [] fun l => l.imports ++ l.testImports

/-- Whether an entry of a lock is that of a dependency. -/
def isNamed (f : GlideFile) (pin : GlideEntry) : Bool :=
  f.entries.any (·.name = pin.name)

/-- The last one of some entries that has a name. -/
def LastOf (name : String) (entries : List GlideEntry) (e : GlideEntry) : Prop :=
  ∃ front back, entries = front ++ e :: back ∧ e.name = name ∧ ∀ other ∈ back, other.name ≠ name

/-- What is recorded of a dependency if the lock has certain entries. -/
structure Joined (entries : List GlideEntry) (e : GlideEntry) (r : ImportRecord) : Prop where
  importPath : r.importPath = e.name
  /-- The last entry of the name has the revision. -/
  revision_pinned : ∀ pin, LastOf e.name entries pin → r.revision.text = pin.version
  /-- Without one, a version that looks like a commit is the revision. -/
  revision_unpinned : (∀ pin ∈ entries, pin.name ≠ e.name) → r.revision.text =
    if Revision.looksLikeCommit (Text.trim e.version) then Text.trim e.version else ""
  /-- Any other version is the label. -/
  label : r.label =
    if Text.isBlankText e.version || Revision.looksLikeCommit (Text.trim e.version) then none
    else some (Text.trim e.version)
  /-- The dependency's own repository comes first. -/
  source_own : Text.isBlankText e.repository = false → r.source = some (Text.trim e.repository)
  source_pinned : Text.isBlankText e.repository = true → ∀ pin, LastOf e.name entries pin →
    r.source = if Text.isBlankText pin.repository then none else some (Text.trim pin.repository)
  source_unpinned : Text.isBlankText e.repository = true → (∀ pin ∈ entries, pin.name ≠ e.name) →
    r.source = none

/-! ## The entry that counts -/

theorem pin?_eq (lock : Option GlideLock) (name : String) :
    pin? lock name = (pins lock).reverse.find? (·.name = name) := by
  cases lock <;> rfl

theorem pin?_eq_some_iff {lock : Option GlideLock} {name : String} {pin : GlideEntry} :
    pin? lock name = some pin ↔ LastOf name (pins lock) pin := by
  rw [pin?_eq, List.find?_eq_some_iff_append, LastOf]
  constructor
  · rintro ⟨hname, front, back, hentries, hfront⟩
    -- read from the end, the entries before it are those after it
    refine ⟨back.reverse, front.reverse, ?_, of_decide_eq_true hname, fun other hother => ?_⟩
    · rw [← List.reverse_reverse (pins lock), hentries]
      simp
    · simpa using hfront other (List.mem_reverse.mp hother)
  · rintro ⟨front, back, hentries, hname, hback⟩
    refine ⟨decide_eq_true hname, back.reverse, front.reverse, ?_, fun other hother => ?_⟩
    · rw [hentries]
      simp
    · simpa using hback other (List.mem_reverse.mp hother)

theorem pin?_eq_none_iff {lock : Option GlideLock} {name : String} :
    pin? lock name = none ↔ ∀ pin ∈ pins lock, pin.name ≠ name := by
  rw [pin?_eq, List.find?_eq_none]
  simp

/-- Only the entries of a name, in their order, count for it. -/
theorem pin?_congr {lock lock' : Option GlideLock} {name : String}
    (h : (pins lock').filter (·.name = name) = (pins lock).filter (·.name = name)) :
    pin? lock' name = pin? lock name := by
  have hfirst : ∀ entries : List GlideEntry, entries.reverse.find? (·.name = name) =
      (entries.filter (·.name = name)).getLast? := by
    intro entries
    rw [← List.head?_filter, List.filter_reverse, List.head?_reverse]
  rw [pin?_eq, pin?_eq, hfirst, hfirst, h]

/-! ## What is recorded -/

theorem importPath_record (e : GlideEntry) (pin : Option GlideEntry) :
    (record e pin).importPath = e.name := by
  simp only [record, ImportRecord.withSource, ImportRecord.withLabel, ImportRecord.new]

theorem revision_record (e : GlideEntry) (pin : Option GlideEntry) :
    (record e pin).revision.text = pin.elim
      (if Revision.looksLikeCommit (Text.trim e.version) then Text.trim e.version else "")
      (·.version) := by
  cases pin <;> simp only [record, ImportRecord.withSource, ImportRecord.withLabel,
    ImportRecord.new, Option.elim]

theorem label_record (e : GlideEntry) (pin : Option GlideEntry) : (record e pin).label =
    if Text.isBlankText e.version || Revision.looksLikeCommit (Text.trim e.version) then none
    else some (Text.trim e.version) := by
  have hlabel : (record e pin).label = ImportRecord.nonBlank?
      (if Revision.looksLikeCommit (Text.trim e.version) then "" else Text.trim e.version) := by
    cases pin <;> simp only [record, ImportRecord.withSource, ImportRecord.withLabel]
  rw [hlabel]
  by_cases hcommit : Revision.looksLikeCommit (Text.trim e.version) = true
  · simp [hcommit]
  · rw [if_neg hcommit, ImportRecord.nonBlank?_trim, ImportRecord.nonBlank?_eq]
    simp [hcommit]

theorem source_record_none (e : GlideEntry) :
    (record e none).source = ImportRecord.nonBlank? e.repository := by
  simp only [record, ImportRecord.withSource]

theorem source_record_some (e pin : GlideEntry) : (record e (some pin)).source =
    if Text.isBlankText e.repository then ImportRecord.nonBlank? pin.repository
    else ImportRecord.nonBlank? e.repository := by
  simp only [record, ImportRecord.withSource, firstNonBlank]
  split <;> rfl

/-- A dependency is recorded as the lock's last entry of its name tells. -/
theorem joined_record (lock : Option GlideLock) (e : GlideEntry) :
    Joined (pins lock) e (record e (pin? lock e.name)) := by
  cases hpin : pin? lock e.name with
  | none =>
      have hnone := pin?_eq_none_iff.mp hpin
      have hlast : ∀ pin, ¬ LastOf e.name (pins lock) pin := by
        intro pin hpin'
        rw [pin?_eq_some_iff.mpr hpin'] at hpin
        exact absurd hpin (by simp)
      exact {
        importPath := importPath_record e none
        revision_pinned := fun pin h => absurd h (hlast pin)
        revision_unpinned := fun _ => by rw [revision_record, Option.elim_none]
        label := label_record e none
        source_own := fun hown => by simp [source_record_none, ImportRecord.nonBlank?_eq, hown]
        source_pinned := fun _ pin h => absurd h (hlast pin)
        source_unpinned := fun hblank _ => by
          simp [source_record_none, ImportRecord.nonBlank?_eq, hblank] }
  | some pin =>
      -- of several lock entries of one name the last one counts
      have hlast := pin?_eq_some_iff.mp hpin
      have honly : ∀ other, LastOf e.name (pins lock) other → other = pin := by
        intro other hother
        rw [pin?_eq_some_iff.mpr hother] at hpin
        exact Option.some.inj hpin
      have hsome : ¬ ∀ other ∈ pins lock, other.name ≠ e.name := by
        rw [← pin?_eq_none_iff, hpin]
        simp
      exact {
        importPath := importPath_record e (some pin)
        revision_pinned := fun other h => by rw [honly other h, revision_record, Option.elim_some]
        revision_unpinned := fun h => absurd h hsome
        label := label_record e (some pin)
        source_own := fun hown => by simp [source_record_some, ImportRecord.nonBlank?_eq, hown]
        source_pinned := fun hblank other h => by
          simp [source_record_some, ImportRecord.nonBlank?_eq, hblank, honly other h]
        source_unpinned := fun _ h => absurd h hsome }

theorem records_congr {f : GlideFile} {lock lock' : Option GlideLock}
    (h : ∀ e ∈ f.entries, (pins lock').filter (·.name = e.name) =
      (pins lock).filter (·.name = e.name)) : f.records lock' = f.records lock := by
  unfold records
  exact List.map_congr_left fun e he => by rw [pin?_congr (h e he)]

/-- Entries with distinct names may come in any order. -/
theorem filter_name_eq_of_perm {entries entries' : List GlideEntry} (hperm : entries'.Perm entries)
    (hnodup : (entries.map (·.name)).Nodup) (name : String) :
    entries'.filter (·.name = name) = entries.filter (·.name = name) := by
  -- no two entries of one name are left, so there is nothing to be reordered
  have hsingle : ∀ l : List GlideEntry, (l.map (·.name)).Nodup →
      (l.filter (·.name = name)).Pairwise fun _ _ => False := by
    intro l hl
    refine ((List.pairwise_map.mp hl).filter _).imp_of_mem fun {a b} ha hb hne => hne ?_
    rw [of_decide_eq_true (List.mem_filter.mp ha).2, of_decide_eq_true (List.mem_filter.mp hb).2]
  have hnodup' : (entries'.map (·.name)).Nodup := (hperm.map _).nodup_iff.mpr hnodup
  exact (hperm.filter _).eq_of_pairwise (fun _ _ _ _ h => h.elim) (hsingle entries' hnodup')
    (hsingle entries hnodup)

/-- Entries of other packages count for no dependency. -/
theorem filter_name_eq_of_filter_isNamed {f : GlideFile} {e : GlideEntry} (he : e ∈ f.entries)
    (entries : List GlideEntry) :
    (entries.filter f.isNamed).filter (·.name = e.name) = entries.filter (·.name = e.name) := by
  rw [List.filter_filter]
  refine List.filter_congr fun pin _ => ?_
  by_cases hname : pin.name = e.name
  · have hnamed : f.isNamed pin = true :=
      List.any_eq_true.mpr ⟨e, he, decide_eq_true hname.symm⟩
    rw [hnamed, Bool.and_true]
  · simp [hname]

/-- Every dependency of the project and then of its tests is recorded, once and in order, as the
lock tells. The order of the lock's entries does not matter as long as it stays the same for each
dependency, and entries of other packages do not matter at all. -/
theorem joined_records (f : GlideFile) (lock : Option GlideLock) :
    List.Forall₂ (Joined (pins lock)) (f.imports ++ f.testImports) (f.records lock) ∧
      (∀ lock', (pins lock').Perm (pins lock) → ((pins lock).map (·.name)).Nodup →
        f.records lock' = f.records lock) ∧
      (∀ lock', (∀ e ∈ f.imports ++ f.testImports, (pins lock').filter (·.name = e.name) =
        (pins lock).filter (·.name = e.name)) → f.records lock' = f.records lock) ∧
      ∀ lock', (pins lock').filter f.isNamed = (pins lock).filter f.isNamed →
        f.records lock' = f.records lock := by
  refine ⟨?_, fun lock' hperm hnodup => ?_, fun lock' h => records_congr h, fun lock' h => ?_⟩
  · unfold records
    rw [List.forall₂_map_right_iff]
    exact List.forall₂_same.mpr fun e _ => joined_record lock e
  · exact records_congr fun e _ => filter_name_eq_of_perm hperm hnodup e.name
  · refine records_congr fun e he => ?_
    rw [← filter_name_eq_of_filter_isNamed he (pins lock'), h,
      filter_name_eq_of_filter_isNamed he (pins lock)]

namespace ThreeLocks

def file : GlideFile where
  name := "github.com/golang/notexist"
  ignored := []
  excludedDirs := []
  imports := [⟨"github.com/x/dep", " v1.0.0 ", ""⟩,
    ⟨"github.com/x/fork", "ff2948a2ac8f538c4ecd55962e919d1e13e74baf", " https://example.org/f "⟩]
  testImports := [⟨"github.com/x/check", "", ""⟩]

/-- Entries for two of the three dependencies. -/
def lock : GlideLock where
  imports := [⟨"github.com/x/dep", "3f4c3bea144e112a69bbe5d8d01c1b09a544253f",
    "https://example.org/d"⟩]
  testImports := [⟨"github.com/x/check", "cb00e5669539f047b2f4c53a421a01b0c8e172c6", ""⟩]

/-- The same entries in each other's place. -/
def swapped : GlideLock := ⟨lock.testImports, lock.imports⟩

/-- One more entry, of a package that is no dependency. -/
def grown : GlideLock := ⟨⟨"github.com/x/other", "abc1234", ""⟩ :: lock.imports, lock.testImports⟩

end ThreeLocks

open ThreeLocks in
theorem joined_records_threeLocks :
    (pins (some swapped)).Perm (pins (some lock)) ∧ ((pins (some lock)).map (·.name)).Nodup ∧
      (pins (some grown)).filter file.isNamed = (pins (some lock)).filter file.isNamed ∧
      file.records (some swapped) = file.records (some lock) ∧
      file.records (some grown) = file.records (some lock) ∧
      file.records (some lock) = [
        ⟨"github.com/x/dep", ⟨"3f4c3bea144e112a69bbe5d8d01c1b09a544253f"⟩, some "v1.0.0",
          some "https://example.org/d"⟩,
        ⟨"github.com/x/fork", ⟨"ff2948a2ac8f538c4ecd55962e919d1e13e74baf"⟩, none,
          some "https://example.org/f"⟩,
        ⟨"github.com/x/check", ⟨"cb00e5669539f047b2f4c53a421a01b0c8e172c6"⟩, none, none⟩] := by
  have hperm : (pins (some swapped)).Perm (pins (some lock)) := by decide
  have hnodup : ((pins (some lock)).map (·.name)).Nodup := by decide
  have hgrown : (pins (some grown)).filter file.isNamed =
      (pins (some lock)).filter file.isNamed := by decide
  obtain ⟨-, hswap, -, hgrow⟩ := joined_records file (some lock)
  exact ⟨hperm, hnodup, hgrown, hswap _ hperm hnodup, hgrow _ hgrown, by decide +kernel⟩

end Relock.GlideFile
