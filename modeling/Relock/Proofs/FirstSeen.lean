import Mathlib.Data.List.Induction
import Mathlib.Data.List.Nodup

/-!
# First-seen order

Packages and ignored paths are kept each once, as they first came up. `List.eraseDups` is that
order. One more element at the end counts if it is new (`eraseDups_concat_of_mem`,
`eraseDups_concat_of_not_mem`), nothing is left twice (`nodup_eraseDups`), and a list without
repetitions stays as it is (`eraseDups_eq_self`).
-/

namespace Relock

variable {α : Type} [BEq α] [LawfulBEq α]

theorem eraseDups_concat_of_mem {l : List α} {a : α} (h : a ∈ l) :
    (l ++ [a]).eraseDups = l.eraseDups := by
  rw [List.eraseDups_append]
  simp [List.removeAll, h]

theorem eraseDups_concat_of_not_mem {l : List α} {a : α} (h : a ∉ l) :
    (l ++ [a]).eraseDups = l.eraseDups ++ [a] := by
  rw [List.eraseDups_append]
  simp [List.removeAll, h, List.eraseDups_cons]

/-- Leaving elements out does not change the order of the others. -/
theorem eraseDups_filter (p : α → Bool) (l : List α) :
    (l.filter p).eraseDups = l.eraseDups.filter p := by
  induction l using List.reverseRecOn with
  | nil => rfl
  | append_singleton l a ih =>
      -- the last element counts if it passes and is new
      rw [List.filter_append]
      by_cases hp : p a = true
      · rw [List.filter_cons_of_pos hp, List.filter_nil]
        by_cases h : a ∈ l
        · have hold : a ∈ l.filter p := List.mem_filter.mpr ⟨h, hp⟩
          rw [eraseDups_concat_of_mem hold, eraseDups_concat_of_mem h, ih]
        · have hnew : a ∉ l.filter p := fun ha => h (List.mem_filter.mp ha).1
          rw [eraseDups_concat_of_not_mem hnew, eraseDups_concat_of_not_mem h, ih,
            List.filter_append, List.filter_cons_of_pos hp, List.filter_nil]
      · rw [List.filter_cons_of_neg hp, List.filter_nil, List.append_nil, ih]
        by_cases h : a ∈ l
        · rw [eraseDups_concat_of_mem h]
        · rw [eraseDups_concat_of_not_mem h, List.filter_append, List.filter_cons_of_neg hp,
            List.filter_nil, List.append_nil]

theorem nodup_eraseDups (l : List α) : l.eraseDups.Nodup := by
  induction l using List.reverseRecOn with
  | nil => simp
  | append_singleton l a ih =>
      by_cases h : a ∈ l
      · rwa [eraseDups_concat_of_mem h]
      · rw [eraseDups_concat_of_not_mem h, List.nodup_append]
        refine ⟨ih, by simp, ?_⟩
        intro b hb c hc heq
        rw [List.mem_singleton.mp hc] at heq
        exact h (heq ▸ List.mem_eraseDups.mp hb)

/-- A list without repetitions stays as it is. -/
theorem eraseDups_eq_self {l : List α} (h : l.Nodup) : l.eraseDups = l := by
  induction l using List.reverseRecOn with
  | nil => rfl
  | append_singleton l a ih =>
      obtain ⟨hl, _, hdisjoint⟩ := List.nodup_append.mp h
      have ha : a ∉ l := fun ha => hdisjoint a ha a (by simp) rfl
      rw [eraseDups_concat_of_not_mem ha, ih hl]

end Relock
