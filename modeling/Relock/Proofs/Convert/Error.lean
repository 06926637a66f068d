import Relock.Convert.Error
import Relock.Proofs.Text.Blank

/-!
# Metadata without mistakes

Metadata can be converted if and only if every record has an import path and a revision
(`error?_eq_none_iff`). Else the error is that of the first record that lacks one of them
(`error?_eq_some_iff`).
-/

namespace Relock

/-- A record that names a package and a revision of it. -/
def ImportRecord.Complete (record : ImportRecord) : Prop :=
  Text.trim record.importPath ≠ "" ∧ Text.trim record.revision.text ≠ ""

namespace LoadedConfig

theorem recordError?_eq_none_iff {file : Option String} {position : Nat} {record : ImportRecord} :
    recordError? file position record = none ↔
      Text.isBlankText record.importPath = false ∧ record.revision.isEmpty = false := by
  unfold recordError?
  by_cases hpath : Text.isBlankText record.importPath = true
  · simp [hpath]
  · by_cases hrevision : record.revision.isEmpty = true
    · simp [hpath, hrevision]
    · simp [hpath, hrevision]

theorem recordsError?_eq_none_iff {file : Option String} {position : Nat}
    {records : List ImportRecord} : recordsError? file position records = none ↔
      ∀ record ∈ records,
        Text.isBlankText record.importPath = false ∧ record.revision.isEmpty = false := by
  induction records generalizing position with
  | nil => simp [recordsError?]
  | cons record records ih =>
      rw [recordsError?, Option.or_eq_none_iff, recordError?_eq_none_iff, ih, List.forall_mem_cons]

theorem error?_eq_none_iff {config : LoadedConfig} : config.error? = none ↔
    ∀ record ∈ config.records,
      Text.isBlankText record.importPath = false ∧ record.revision.isEmpty = false :=
  recordsError?_eq_none_iff

/-! ## The first mistake -/

/-- What is wrong with the first record that is not complete. The path is looked at first. -/
inductive FirstMistake (config : LoadedConfig) : ConvertError → Prop
  | importPath (before after : List ImportRecord) (record : ImportRecord)
      (hrecords : config.records = before ++ record :: after)
      (hbefore : ∀ earlier ∈ before, earlier.Complete)
      (hpath : Text.trim record.importPath = "") :
      FirstMistake config (.emptyImportPath (before.length + 1) config.file)
  | revision (before after : List ImportRecord) (record : ImportRecord)
      (hrecords : config.records = before ++ record :: after)
      (hbefore : ∀ earlier ∈ before, earlier.Complete)
      (hpath : Text.trim record.importPath ≠ "")
      (hrevision : Text.trim record.revision.text = "") :
      FirstMistake config (.emptyRevision record.importPath config.file)

theorem complete_iff {record : ImportRecord} : record.Complete ↔
    Text.isBlankText record.importPath = false ∧ record.revision.isEmpty = false := by
  unfold ImportRecord.Complete Revision.isEmpty
  rw [← Bool.not_eq_true, ← Bool.not_eq_true, Text.isBlankText_iff, Text.isBlankText_iff]

theorem recordError?_eq_some_iff {file : Option String} {position : Nat} {record : ImportRecord}
    {error : ConvertError} : recordError? file position record = some error ↔
      (Text.trim record.importPath = "" ∧ error = .emptyImportPath position file) ∨
        (Text.trim record.importPath ≠ "" ∧ Text.trim record.revision.text = "" ∧
          error = .emptyRevision record.importPath file) := by
  unfold recordError? Revision.isEmpty
  simp only [Text.isBlankText_iff]
  by_cases hpath : Text.trim record.importPath = ""
  · rw [if_pos hpath, Option.some_inj]
    constructor
    · rintro rfl
      exact .inl ⟨hpath, rfl⟩
    · rintro (⟨_, rfl⟩ | ⟨hnamed, _⟩)
      · rfl
      · exact absurd hpath hnamed
  · rw [if_neg hpath]
    by_cases hrevision : Text.trim record.revision.text = ""
    · rw [if_pos hrevision, Option.some_inj]
      constructor
      · rintro rfl
        exact .inr ⟨hpath, hrevision, rfl⟩
      · rintro (⟨hunnamed, _⟩ | ⟨_, _, rfl⟩)
        · exact absurd hunnamed hpath
        · rfl
    · simp [hpath, hrevision]

/-- The error of some records is that of the first one that has an error. -/
theorem recordsError?_eq_some_iff {file : Option String} {position : Nat}
    {records : List ImportRecord} {error : ConvertError} :
    recordsError? file position records = some error ↔
      ∃ before record after, records = before ++ record :: after ∧
        (∀ earlier ∈ before, earlier.Complete) ∧
        recordError? file (position + before.length) record = some error := by
  induction records generalizing position with
  | nil => simp [recordsError?]
  | cons first records ih =>
      -- positions count from the beginning of all records, not of those that are left
      have hnext : ∀ n, position + 1 + n = position + (n + 1) := by omega
      rw [recordsError?, Option.or_eq_some_iff, recordError?_eq_none_iff, ← complete_iff, ih]
      constructor
      · rintro (hfirst | ⟨hcomplete, before, record, after, rfl, hbefore, herror⟩)
        · exact ⟨[], first, records, rfl, by simp, hfirst⟩
        · rw [hnext] at herror
          exact ⟨first :: before, record, after, rfl,
            List.forall_mem_cons.mpr ⟨hcomplete, hbefore⟩, herror⟩
      · rintro ⟨before, record, after, hrecords, hbefore, herror⟩
        cases before with
        | nil =>
            obtain ⟨rfl, rfl⟩ := List.cons.inj hrecords
            exact .inl herror
        | cons earlier before =>
            obtain ⟨rfl, rfl⟩ := List.cons.inj hrecords
            obtain ⟨hcomplete, hbefore⟩ := List.forall_mem_cons.mp hbefore
            rw [List.length_cons, ← hnext] at herror
            exact .inr ⟨hcomplete, before, record, after, rfl, hbefore, herror⟩

theorem error?_eq_some_iff {config : LoadedConfig} {error : ConvertError} :
    config.error? = some error ↔ FirstMistake config error := by
  unfold error?
  rw [recordsError?_eq_some_iff]
  constructor
  · rintro ⟨before, record, after, hrecords, hbefore, herror⟩
    rw [Nat.add_comm] at herror
    rcases recordError?_eq_some_iff.mp herror with ⟨hpath, rfl⟩ | ⟨hpath, hrevision, rfl⟩
    · exact .importPath before after record hrecords hbefore hpath
    · exact .revision before after record hrecords hbefore hpath hrevision
  · intro hfirst
    cases hfirst with
    | importPath before after record hrecords hbefore hpath =>
        refine ⟨before, record, after, hrecords, hbefore, ?_⟩
        rw [Nat.add_comm]
        exact recordError?_eq_some_iff.mpr (.inl ⟨hpath, rfl⟩)
    | revision before after record hrecords hbefore hpath hrevision =>
        refine ⟨before, record, after, hrecords, hbefore, ?_⟩
        exact recordError?_eq_some_iff.mpr (.inr ⟨hpath, hrevision, rfl⟩)

end LoadedConfig

end Relock
