import Relock.Metadata.Vndr
import Relock.Proofs.Record
import Relock.Proofs.Text.Words

/-!
# The layouts of `vendor.conf`

`Written` says how records are laid out in a text: the fields of each on a line of its own
(`Spaced`), more fields after a source, comments, and lines that record nothing.

* Exactly the texts that records are laid out in are read as these records, and every text is one of
  some records; `Writable` says of which. A line feed between two texts parts their records
  (`written_iff`).
-/

namespace Relock.Vndr

/-! ## Layouts -/

/-- A text that can stand in a column. -/
structure IsField (field : List Char) : Prop where
  ne_nil : field ≠ []
  not_isBlank : ∀ c ∈ field, Text.isBlank c = false
  not_mem : '#' ∉ field

/-- Blanks that stay on their line. -/
def IsGap (gap : List Char) : Prop :=
  ∀ c ∈ gap, Text.isBlank c = true ∧ c ≠ '\n'

/-- A comment, or nothing. -/
def IsComment (comment : List Char) : Prop :=
  comment = [] ∨ ∃ text, comment = '#' :: text ∧ '\n' ∉ text

/-- What a record has in the columns: its path, and its revision and source as far as it has
them. -/
def fields (r : ImportRecord) : List (List Char) :=
  r.importPath.toList ::
    ((if r.revision.text = "" then [] else [r.revision.text.toList]) ++
      r.source.toList.map String.toList)

/-- A record that can stand on a line. -/
structure Writable (r : ImportRecord) : Prop where
  label : r.label = none
  isField : ∀ field ∈ fields r, IsField field
  /-- A source needs a revision before it. -/
  revision : r.source ≠ none → r.revision.text ≠ ""

/-- Fields with blanks between them, and perhaps around them. -/
inductive Spaced : List (List Char) → List Char → Prop
  | gap {gap : List Char} : IsGap gap → Spaced [] gap
  | last {gap field : List Char} : IsGap gap → IsField field → Spaced [field] (gap ++ field)
  | field {gap field text : List Char} {c : Char} {fields : List (List Char)} :
      IsGap gap → IsField field → IsGap [c] → Spaced fields text →
      Spaced (field :: fields) (gap ++ field ++ c :: text)

/-- A line that records something or nothing. -/
inductive Line : Option ImportRecord → List Char → Prop
  /-- After a source there may be more fields. -/
  | record {r : ImportRecord} {more : List (List Char)} {text comment : List Char} :
      Writable r → (more ≠ [] → r.source ≠ none) → Spaced (fields r ++ more) text →
      IsComment comment → Line (some r) (text ++ comment)
  | idle {gap comment : List Char} : IsGap gap → IsComment comment → Line none (gap ++ comment)

/-- The texts that records are laid out in. -/
inductive Written : List ImportRecord → List Char → Prop
  | last {r : Option ImportRecord} {line : List Char} : Line r line → Written r.toList line
  | line {r : Option ImportRecord} {records : List ImportRecord} {line ending text : List Char} :
      Line r line → ending = ['\n'] ∨ ending = ['\r', '\n'] → Written records text →
      Written (r.toList ++ records) (line ++ ending ++ text)

/-! ## Lines -/

theorem isBlank_of_isGap {gap : List Char} (h : IsGap gap) :
    ∀ c ∈ gap, Text.isBlank c = true :=
  fun c hc => (h c hc).1

/-- No comment and no other line begins among fields. -/
theorem not_mem_of_spaced {fields : List (List Char)} {text : List Char} (h : Spaced fields text)
    {c : Char} (hc : c = '#' ∨ c = '\n') : c ∉ text := by
  have hgap : ∀ {gap : List Char}, IsGap gap → c ∉ gap := by
    rintro gap hgap hmem
    obtain ⟨hblank, hline⟩ := hgap c hmem
    rcases hc with rfl | rfl
    · exact absurd hblank (by decide)
    · exact hline rfl
  have hfield : ∀ {field : List Char}, IsField field → c ∉ field := by
    rintro field hfield hmem
    rcases hc with rfl | rfl
    · exact hfield.not_mem hmem
    · exact absurd (hfield.not_isBlank _ hmem) (by decide)
  induction h with
  | gap hg => exact hgap hg
  | last hg hf => simp [hgap hg, hfield hf]
  | field hg hf hend _ ih =>
      have hne := hgap hend
      rw [List.mem_singleton] at hne
      simp [hgap hg, hfield hf, hne, ih]

theorem words_of_spaced {fields : List (List Char)} {text : List Char} (h : Spaced fields text) :
    Text.words text = fields := by
  induction h with
  | @gap gap hgap => simpa using Text.words_append_of_isBlank (isBlank_of_isGap hgap) []
  | last hgap hfield =>
      rw [Text.words_append_of_isBlank (isBlank_of_isGap hgap),
        Text.words_of_not_isBlank hfield.ne_nil hfield.not_isBlank]
  | @field gap field text c fields hgap hfield hend _ ih =>
      have hc : Text.isBlank c = true := (hend c (by simp)).1
      rw [List.append_assoc, Text.words_append_of_isBlank (isBlank_of_isGap hgap),
        Text.words_append_cons field text hc,
        Text.words_of_not_isBlank hfield.ne_nil hfield.not_isBlank, ih]
      rfl

/-- A text without a comment on one line consists of its words and blanks. -/
theorem spaced_words {text : List Char} (hsign : '#' ∉ text) (hline : '\n' ∉ text) :
    Spaced (Text.words text) text := by
  induction hlength : text.length using Nat.strong_induction_on generalizing text with
  | h n ih =>
    have hgap : ∀ {gap : List Char}, (∀ c ∈ gap, c ∈ text) →
        (∀ c ∈ gap, Text.isBlank c = true) → IsGap gap := by
      rintro gap hmem hblank c hc
      refine ⟨hblank c hc, ?_⟩
      rintro rfl
      exact hline (hmem _ hc)
    rcases Text.first_word_cases text with
      hblank | ⟨gap, word, rest, htext, hbefore, hne, hword, hend⟩
    · have hwords : Text.words text = [] := by
        simpa using Text.words_append_of_isBlank hblank []
      rw [hwords]
      exact .gap (hgap (fun _ hc => hc) hblank)
    · -- the first word stands in front, and what comes after the blank behind it is shorter
      have hfield : IsField word := ⟨hne, hword, fun hmem => hsign (by simp [htext, hmem])⟩
      have hbefore' : IsGap gap := hgap (fun c hc => by simp [htext, hc]) hbefore
      rw [htext, List.append_assoc, Text.words_append_of_isBlank hbefore]
      cases rest with
      | nil =>
          rw [List.append_nil, Text.words_of_not_isBlank hne hword]
          exact .last hbefore' hfield
      | cons c rest =>
          have hc : Text.isBlank c = true := hend c rfl
          rw [Text.words_append_cons word rest hc, Text.words_of_not_isBlank hne hword,
            ← List.append_assoc]
          refine .field hbefore' hfield (hgap ?_ (by simpa using hc)) ?_
          · simp [htext]
          · refine ih rest.length ?_ ?_ ?_ rfl
            · rw [← hlength, htext]
              simp
              omega
            · exact fun hmem => hsign (by simp [htext, hmem])
            · exact fun hmem => hline (by simp [htext, hmem])

/-! ## What a line records -/

/-- The fields that count are those of the record, and it has no label. -/
theorem recordOfFields?_fields {r : ImportRecord} (h : Writable r) {more : List (List Char)}
    (hmore : more ≠ [] → r.source ≠ none) : recordOfFields? (fields r ++ more) = some r := by
  obtain ⟨importPath, ⟨revision⟩, label, source⟩ := r
  obtain rfl : label = none := h.label
  cases source with
  | none =>
      obtain rfl : more = [] := by_contra fun hne => hmore hne rfl
      by_cases hrevision : revision = "" <;>
        simp [recordOfFields?, fields, hrevision, ImportRecord.new, ImportRecord.withSource]
  | some source =>
      have hrevision : revision ≠ "" := h.revision (by simp)
      have hsource : IsField source.toList := h.isField _ (by simp [fields])
      have hne : source ≠ "" := fun heq => hsource.ne_nil (by simp [heq])
      simp [recordOfFields?, fields, hrevision, ImportRecord.new, ImportRecord.withSource,
        ImportRecord.nonBlank?, Text.trim_eq_self hsource.not_isBlank, hne]

/-- Some columns are empty, or those of a record and perhaps more. -/
theorem columns_cases {columns : List (List Char)} (h : ∀ field ∈ columns, IsField field) :
    columns = [] ∨ ∃ r more, columns = fields r ++ more ∧ Writable r ∧
      (more ≠ [] → r.source ≠ none) := by
  have hwritable : ∀ {r more}, columns = fields r ++ more → r.label = none →
      (r.source ≠ none → r.revision.text ≠ "") → Writable r :=
    fun heq hlabel hrevision => ⟨hlabel, fun f hf => h f (by simp [heq, hf]), hrevision⟩
  rcases hcolumns : columns with _ | ⟨importPath, _ | ⟨revision, rest⟩⟩
  · exact .inl rfl
  · have heq : columns = fields ⟨String.ofList importPath, ⟨""⟩, none, none⟩ ++ [] := by
      simp [hcolumns, fields]
    exact .inr ⟨_, [], hcolumns ▸ heq, hwritable heq rfl (by simp), by simp⟩
  · -- no column is empty, so with a second one there is a revision
    have hne : String.ofList revision ≠ "" := fun hempty =>
      (h revision (by simp [hcolumns])).ne_nil (by simpa using congrArg String.toList hempty)
    cases rest with
    | nil =>
        have heq : columns =
            fields ⟨String.ofList importPath, ⟨String.ofList revision⟩, none, none⟩ ++ [] := by
          simp [hcolumns, fields, hne]
        exact .inr ⟨_, [], hcolumns ▸ heq, hwritable heq rfl (by simp), by simp⟩
    | cons source more =>
        have heq : columns = fields ⟨String.ofList importPath, ⟨String.ofList revision⟩, none,
            some (String.ofList source)⟩ ++ more := by
          simp [hcolumns, fields, hne]
        exact .inr ⟨_, more, hcolumns ▸ heq, hwritable heq rfl fun _ => hne, by simp⟩

theorem isField_of_spaced {fields : List (List Char)} {text : List Char} (h : Spaced fields text) :
    ∀ field ∈ fields, IsField field := by
  induction h with
  | gap _ => simp
  | last _ hfield => simpa using hfield
  | field _ hfield _ _ ih => simpa using ⟨hfield, ih⟩

/-- A record can stand on a line if its columns can. -/
theorem exists_spaced {fields : List (List Char)} (h : ∀ field ∈ fields, IsField field) :
    ∃ text, Spaced fields text := by
  have hgap : IsGap [] := by simp [IsGap]
  induction fields with
  | nil => exact ⟨[], .gap hgap⟩
  | cons field fields ih =>
      obtain ⟨text, htext⟩ := ih fun f hf => h f (List.mem_cons_of_mem _ hf)
      have hspace : IsGap [' '] := by simpa [IsGap] using (by decide : Text.isBlank ' ' = true)
      exact ⟨[] ++ field ++ ' ' :: text, .field hgap (h field (by simp)) hspace htext⟩

theorem not_mem_of_isComment {comment : List Char} (h : IsComment comment) : '\n' ∉ comment := by
  obtain rfl | ⟨text, rfl, htext⟩ := h
  · simp
  · simpa using htext

/-- What counts of a line ends at its first number sign. -/
theorem takeWhile_append_sign {text rest : List Char} (htext : '#' ∉ text)
    (hrest : ∀ c ∈ rest.head?, c = '#') : (text ++ rest).takeWhile (· != '#') = text := by
  refine (Text.takeWhile_dropWhile_append (fun c hc => ?_) fun c hc => ?_).1
  · simpa using fun heq : c = '#' => htext (heq ▸ hc)
  · simpa using hrest c hc

theorem head?_of_isComment {comment : List Char} (h : IsComment comment) :
    ∀ c ∈ comment.head?, c = '#' := by
  obtain rfl | ⟨text, rfl, -⟩ := h <;> simp

theorem Line.record?_eq {r : Option ImportRecord} {line : List Char} (h : Line r line) :
    record? line = r := by
  cases h with
  | record hr hmore hspaced hcomment =>
      rw [record?, takeWhile_append_sign (not_mem_of_spaced hspaced (.inl rfl))
          (head?_of_isComment hcomment),
        words_of_spaced hspaced, recordOfFields?_fields hr hmore]
  | idle hgap hcomment =>
      rw [record?, takeWhile_append_sign (not_mem_of_spaced (.gap hgap) (.inl rfl))
          (head?_of_isComment hcomment),
        words_of_spaced (.gap hgap), recordOfFields?]

theorem Line.not_mem {r : Option ImportRecord} {line : List Char} (h : Line r line) :
    '\n' ∉ line := by
  cases h with
  | record _ _ hspaced hcomment =>
      simp [not_mem_of_spaced hspaced (.inr rfl), not_mem_of_isComment hcomment]
  | idle hgap hcomment =>
      simp [not_mem_of_spaced (.gap hgap) (.inr rfl), not_mem_of_isComment hcomment]

/-- Every line is laid out for what it records. -/
theorem line_record? {line : List Char} (h : '\n' ∉ line) : Line (record? line) line := by
  have hparts := List.takeWhile_append_dropWhile (p := (· != '#')) (l := line)
  have hcomment : IsComment (line.dropWhile (· != '#')) := by
    cases hrest : line.dropWhile (· != '#') with
    | nil => exact .inl rfl
    | cons c text =>
        have hhead := List.head?_dropWhile_not (· != '#') line
        obtain rfl : c = '#' := by simpa [hrest] using hhead
        refine .inr ⟨text, rfl, fun hmem => h ?_⟩
        rw [← hparts, hrest]
        simp [hmem]
  have hspaced : Spaced (Text.words (line.takeWhile (· != '#'))) (line.takeWhile (· != '#')) := by
    refine spaced_words (fun hmem => ?_) fun hmem => h ?_
    · simpa using List.mem_takeWhile_imp hmem
    · exact (List.takeWhile_prefix _).subset hmem
  rw [record?]
  conv => arg 2; rw [← hparts]
  -- behind a source there may be more columns, which nothing reads
  rcases columns_cases (isField_of_spaced hspaced) with hnone | ⟨r, more, hcolumns, hr, hmore⟩
  · rw [hnone] at hspaced ⊢
    cases hspaced with
    | gap hgap => exact .idle hgap hcomment
  · rw [hcolumns] at hspaced ⊢
    rw [recordOfFields?_fields hr hmore]
    exact .record hr hmore hspaced hcomment

/-! ## What a text records -/

theorem record?_nil : record? [] = none := by
  simp [record?, recordOfFields?]

/-- A carriage return at the end of a line is a blank, or part of the comment. -/
theorem record?_append_return (line : List Char) : record? (line ++ ['\r']) = record? line := by
  rw [record?, record?]
  by_cases hsign : '#' ∈ line
  · obtain ⟨text, comment, rfl, htext⟩ := List.eq_append_cons_of_mem hsign
    rw [List.append_assoc, takeWhile_append_sign htext (by simp),
      takeWhile_append_sign htext (by simp)]
  · have hcut : ∀ {text : List Char}, '#' ∉ text → text.takeWhile (· != '#') = text := by
      intro text htext
      simpa using @takeWhile_append_sign text [] htext (by simp)
    rw [hcut hsign, hcut (by simpa using hsign), Text.words_append_cons line [] (by decide),
      Text.words_nil, List.append_nil]

theorem Written.records_eq {rs : List ImportRecord} {text : List Char} (h : Written rs text) :
    (Text.lines text).filterMap record? = rs := by
  have hread : ∀ {line : List Char}, '\n' ∉ line →
      (Text.lines line).filterMap record? = (record? line).toList :=
    Text.filterMap_lines_of_not_mem record?_nil record?_append_return
  induction h with
  | last hline => rw [hread hline.not_mem, hline.record?_eq]
  | @line r records line ending text hline hending _ ih =>
      -- a carriage return before the line feed counts to the line, where it makes no difference
      obtain ⟨line', hline', hparts⟩ : ∃ line', (Text.lines line').filterMap record? = r.toList ∧
          line ++ ending ++ text = line' ++ '\n' :: text := by
        rcases hending with rfl | rfl
        · exact ⟨line, by rw [hread hline.not_mem, hline.record?_eq], by simp⟩
        · refine ⟨line ++ ['\r'], ?_, by simp⟩
          rw [hread (by simpa using hline.not_mem), record?_append_return, hline.record?_eq]
      rw [hparts, Text.filterMap_lines_append record?_nil record?_append_return, hline', ih]

/-- Every text is laid out for what it records. -/
theorem written_records (text : List Char) :
    Written ((Text.lines text).filterMap record?) text := by
  induction hlength : text.length using Nat.strong_induction_on generalizing text with
  | h n ih =>
    by_cases hmem : '\n' ∈ text
    · -- the first line ends here, and the text behind it is shorter
      obtain ⟨line, rest, rfl, hline⟩ := List.eq_append_cons_of_mem hmem
      rw [Text.filterMap_lines_append record?_nil record?_append_return,
        Text.filterMap_lines_of_not_mem record?_nil record?_append_return hline]
      have hrest := ih rest.length (by simp at hlength; omega) rest rfl
      simpa using Written.line (line_record? hline) (.inl rfl) hrest
    · rw [Text.filterMap_lines_of_not_mem record?_nil record?_append_return hmem]
      exact .last (line_record? hmem)

theorem exists_written {rs : List ImportRecord} (h : ∀ r ∈ rs, Writable r) :
    ∃ text, Written rs text := by
  have hnothing : IsComment [] := .inl rfl
  induction rs with
  | nil =>
      have hidle : Line none ([] ++ []) := .idle (by simp [IsGap]) hnothing
      exact ⟨_, .last hidle⟩
  | cons r rs ih =>
      obtain ⟨text, htext⟩ := ih fun s hs => h s (List.mem_cons_of_mem _ hs)
      obtain ⟨line, hline⟩ := exists_spaced (h r (by simp)).isField
      have hfields : Spaced (fields r ++ []) line := by simpa using hline
      have hrecord : Line (some r) (line ++ []) :=
        .record (h r (by simp)) (fun hmore => absurd rfl hmore) hfields hnothing
      exact ⟨_, .line hrecord (.inl rfl) htext⟩

theorem Written.writable {rs : List ImportRecord} {text : List Char} (h : Written rs text) :
    ∀ r ∈ rs, Writable r := by
  have hrecord : ∀ {r : Option ImportRecord} {line}, Line r line → ∀ s ∈ r.toList, Writable s := by
    intro r line hline
    cases hline with
    | record hr _ _ _ => simpa using hr
    | idle _ _ => simp
  induction h with
  | last hline => exact hrecord hline
  | line hline _ _ ih =>
      intro r hr
      exact (List.mem_append.mp hr).elim (hrecord hline r) (ih r)

/-- Exactly the texts that records are laid out in are read as these records. What is read from a
text can stand on lines, and all that can is read from some text. Two texts with a line feed between
them are read one after the other. -/
theorem written_iff_records :
    (∀ rs text, Written rs text.toList ↔ records text = rs) ∧
    (∀ rs, (∀ r ∈ rs, Writable r) ↔ ∃ text, records text = rs) ∧
    ∀ front back, records (front ++ "\n" ++ back) = records front ++ records back := by
  have hiff : ∀ rs text, Written rs text.toList ↔ records text = rs := by
    intro rs text
    refine ⟨Written.records_eq, ?_⟩
    rintro rfl
    exact written_records text.toList
  refine ⟨hiff, fun rs => ⟨fun hrs => ?_, ?_⟩, fun front back => ?_⟩
  · obtain ⟨text, htext⟩ := exists_written hrs
    exact ⟨String.ofList text, (hiff _ _).mp (by simpa using htext)⟩
  · rintro ⟨text, rfl⟩
    exact (written_records text.toList).writable
  · have hsplit : (front ++ "\n" ++ back).toList = front.toList ++ '\n' :: back.toList := by
      simp
    rw [records, hsplit, Text.filterMap_lines_append record?_nil record?_append_return]
    rfl

namespace FourLines

def text : String := "# pinned\r\n\tp/a r1 u1 more#x\np/b\u3000r2 \r\n\n p/c"

def found : List ImportRecord :=
  [⟨"p/a", ⟨"r1"⟩, none, some "u1"⟩, ⟨"p/b", ⟨"r2"⟩, none, none⟩, ⟨"p/c", ⟨""⟩, none, none⟩]

end FourLines

open FourLines in
theorem written_iff_records_fourLines :
    Written found text.toList ∧ (∀ r ∈ found, Writable r) ∧ records (text ++ "\n" ++ text) =
      found ++ found := by
  obtain ⟨hwritten, hwritable, hparts⟩ := written_iff_records
  have hread : records text = found := by decide
  refine ⟨(hwritten found text).mpr hread, (hwritable found).mpr ⟨text, hread⟩, ?_⟩
  rw [hparts, hread]

end Relock.Vndr
