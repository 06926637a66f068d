import Mathlib.Data.List.TakeWhile
import Relock.Text.Blank

/-!
# Trimming

What is left after trimming has nothing to trim (`trimEnds_trimEnds`), and nothing is left of a text
if and only if it holds nothing but blanks (`isBlankText_iff`).
-/

namespace Relock.Text

/-- Dropping at the end does nothing to a text whose last character is to stay. -/
theorem dropTail_eq_self {p : Char → Bool} {cs : List Char}
    (h : ∀ c ∈ cs.getLast?, p c = false) : dropTail p cs = cs := by
  unfold dropTail
  rcases List.eq_nil_or_concat cs with rfl | ⟨front, last, rfl⟩
  · rfl
  · have hlast : p last = false := h last (by simp)
    simp [hlast]

/-- What `dropTail` keeps begins as the text did. -/
theorem head?_dropTail {p : Char → Bool} {cs : List Char} {c : Char}
    (h : (dropTail p cs).head? = some c) : cs.head? = some c := by
  rw [← dropTail_append_reverse_takeWhile p cs, List.head?_append, h]
  rfl

/-- What trimming leaves does not begin with a character that is dropped. -/
theorem head?_trimEnds {p : Char → Bool} {cs : List Char} {c : Char}
    (h : (trimEnds p cs).head? = some c) : p c = false := by
  have hhead := List.head?_dropWhile_not p cs
  rw [head?_dropTail h] at hhead
  simpa using hhead

/-- A text whose first and last character are to stay has nothing to trim. -/
theorem trimEnds_eq_self {p : Char → Bool} {cs : List Char} (hfirst : ∀ c ∈ cs.head?, p c = false)
    (hlast : ∀ c ∈ cs.getLast?, p c = false) : trimEnds p cs = cs := by
  have hfront : cs.dropWhile p = cs := by
    cases cs with
    | nil => rfl
    | cons c cs =>
        have hc : p c = false := hfirst c rfl
        simp [hc]
  rw [trimEnds, hfront]
  exact dropTail_eq_self hlast

theorem trimEnds_trimEnds (p : Char → Bool) (cs : List Char) :
    trimEnds p (trimEnds p cs) = trimEnds p cs :=
  trimEnds_eq_self (fun _ hc => head?_trimEnds hc) fun _ hc => getLast?_dropTail hc

theorem trim_trim (text : String) : trim (trim text) = trim text := by
  simp [trim, trimEnds_trimEnds]

/-- A text without blanks has nothing to trim. -/
theorem trim_eq_self {text : String} (h : ∀ c ∈ text.toList, isBlank c = false) :
    trim text = text := by
  rw [trim, trimEnds_eq_self (fun c hc => h c (List.mem_of_head? hc))
    (fun c hc => h c (List.mem_of_getLast? hc)), String.ofList_toList]

/-- Nothing but blanks is what nothing is left of without the blanks at the ends. -/
theorem isBlankText_iff {s : String} : isBlankText s = true ↔ trim s = "" := by
  have htrim : trim s = "" ↔ trimEnds isBlank s.toList = [] := by
    rw [trim, ← String.toList_eq_nil_iff, String.toList_ofList]
  rw [htrim, isBlankText, List.all_eq_true, trimEnds, dropTail, List.reverse_eq_nil_iff,
    List.dropWhile_eq_nil_iff]
  constructor
  · intro hall c hc
    exact hall c ((List.dropWhile_suffix _).subset (List.mem_reverse.mp hc))
  · intro hrest c hc
    rw [← List.takeWhile_append_dropWhile (p := isBlank) (l := s.toList)] at hc
    rcases List.mem_append.mp hc with hfront | hback
    · exact List.mem_takeWhile_imp hfront
    · exact hrest c (List.mem_reverse.mpr hback)

end Relock.Text
