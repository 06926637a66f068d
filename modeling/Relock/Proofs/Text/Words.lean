import Mathlib.Data.List.TakeWhile
import Relock.Text.Blank

/-!
# Words and lines

A blank separates words from each other (`words_append_cons`), and a function of lines that takes no
notice of a carriage return at the end can be applied to the pieces between line feeds
(`filterMap_lines`); such a function reads a text line by line (`filterMap_lines_append`).
-/

namespace Relock.Text

/-! ## Words -/

@[simp] theorem words_nil : words [] = [] := by
  simp [words]

/-- A blank ends a word. -/
theorem words_append_cons (front back : List Char) {c : Char} (hc : isBlank c = true) :
    words (front ++ c :: back) = words front ++ words back := by
  rw [words, List.splitOnP_append_cons front back hc, List.filter_append]
  rfl

theorem words_cons_of_isBlank {c : Char} (hc : isBlank c = true) (cs : List Char) :
    words (c :: cs) = words cs := by
  simpa using words_append_cons [] cs hc

/-- Blanks in front of a text make no difference. -/
theorem words_append_of_isBlank {gap : List Char} (hgap : ∀ c ∈ gap, isBlank c = true)
    (cs : List Char) : words (gap ++ cs) = words cs := by
  induction gap with
  | nil => rfl
  | cons c gap ih =>
      rw [List.cons_append, words_cons_of_isBlank (hgap c (by simp))]
      exact ih fun d hd => hgap d (List.mem_cons_of_mem _ hd)

/-- A text without blanks is a word. -/
theorem words_of_not_isBlank {word : List Char} (hne : word ≠ [])
    (hword : ∀ c ∈ word, isBlank c = false) : words word = [word] := by
  rw [words, List.splitOnP_eq_singleton hword]
  simp [hne]

/-- What does not consist of blanks has a first word, which a blank or the end follows. -/
theorem first_word_cases (cs : List Char) : (∀ c ∈ cs, isBlank c = true) ∨
    ∃ gap word rest, cs = gap ++ word ++ rest ∧ (∀ c ∈ gap, isBlank c = true) ∧ word ≠ [] ∧
      (∀ c ∈ word, isBlank c = false) ∧ ∀ c ∈ rest.head?, isBlank c = true := by
  cases htext : cs.dropWhile isBlank with
  | nil => exact .inl (List.dropWhile_eq_nil_iff.mp htext)
  | cons c text =>
      have hc : isBlank c = false := by
        have hhead := List.head?_dropWhile_not isBlank cs
        simpa [htext] using hhead
      right
      refine ⟨cs.takeWhile isBlank, c :: text.takeWhile (! isBlank ·),
        text.dropWhile (! isBlank ·), ?_, fun _ hd => List.mem_takeWhile_imp hd, by simp, ?_, ?_⟩
      · rw [List.append_assoc, List.cons_append, List.takeWhile_append_dropWhile, ← htext,
          List.takeWhile_append_dropWhile]
      · intro d hd
        rcases List.mem_cons.mp hd with rfl | hd
        · exact hc
        · simpa using List.mem_takeWhile_imp hd
      · intro d hd
        have hhead := List.head?_dropWhile_not (! isBlank ·) text
        rw [Option.mem_def.mp hd] at hhead
        simpa using hhead

/-! ## Lines -/

section Lines
variable {α : Type} {f : List Char → Option α}

theorem dropReturn_cases (line : List Char) :
    dropReturn line = line ∨ line = dropReturn line ++ ['\r'] := by
  unfold dropReturn
  split
  · rename_i hlast
    obtain ⟨front, rfl⟩ := List.getLast?_eq_some_iff.mp hlast
    exact .inr (by rw [List.dropLast_concat])
  · exact .inl rfl

/-- The lines may be read as the pieces between line feeds. -/
theorem filterMap_lines (hnil : f [] = none) (hreturn : ∀ line, f (line ++ ['\r']) = f line)
    (cs : List Char) : (lines cs).filterMap f = (cs.splitOn '\n').filterMap f := by
  have hdrop : ∀ line, f (dropReturn line) = f line := by
    intro line
    rcases dropReturn_cases line with heq | heq
    · rw [heq]
    · rw [heq, hreturn, ← heq]
  rw [lines]
  induction cs.splitOn '\n' using linesOfPieces.induct with
  | case1 => rfl
  | case2 last hempty =>
      have hlast : last = [] := List.isEmpty_iff.mp hempty
      simp [linesOfPieces, hlast, hnil]
  | case3 last hempty => simp [linesOfPieces, hempty]
  | case4 piece pieces hne ih =>
      rw [linesOfPieces.eq_3 _ _ hne, List.filterMap_cons, List.filterMap_cons, hdrop, ih]

/-- A line feed parts a text into two that are read for themselves. -/
theorem filterMap_lines_append (hnil : f [] = none)
    (hreturn : ∀ line, f (line ++ ['\r']) = f line) (front back : List Char) :
    (lines (front ++ '\n' :: back)).filterMap f =
      (lines front).filterMap f ++ (lines back).filterMap f := by
  simp only [filterMap_lines hnil hreturn]
  rw [List.splitOn_append_cons_self, List.filterMap_append]

/-- A text without a line feed is one line. -/
theorem filterMap_lines_of_not_mem (hnil : f [] = none)
    (hreturn : ∀ line, f (line ++ ['\r']) = f line) {line : List Char} (hline : '\n' ∉ line) :
    (lines line).filterMap f = (f line).toList := by
  rw [filterMap_lines hnil hreturn, List.splitOn_eq_singleton hline]
  cases h : f line <;> simp [h]

end Lines

end Relock.Text
