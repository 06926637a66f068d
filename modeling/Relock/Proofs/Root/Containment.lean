import Mathlib.Data.List.Basic
import Relock.Proofs.Text.Blank
import Relock.Root.Deduction

/-!
# Containment of paths in roots

`ProjectRoot.contains` compares a root with the beginning of a path, up to a slash or the end.
Three facts about it carry all later reasoning:

* **transitivity**: what lies below a root that lies below another one lies below both
  (`contains_trans`);
* **packages**: exactly the paths in a root have a package relative to it
  (`exists_relativePackage_iff`);
* **beginnings**: the root at the first segments of a path contains the path
  (`contains_of_segments`), so every root by convention and every candidate does.
-/

namespace Relock

/-- A path without slashes at its ends stays as it is. -/
@[simp] theorem trimSlashes_trimSlashes (path : String) :
    trimSlashes (trimSlashes path) = trimSlashes path := by
  simp [trimSlashes, Text.trimEnds_trimEnds]

namespace ProjectRoot

/-! ## What containment says -/

/-- A path is in a root if it goes on after the root with a slash, or not at all. -/
theorem contains_iff {root : ProjectRoot} {path : String} :
    root.contains path = true ↔
      ∃ rest, path.toList = root.text.toList ++ rest ∧ (rest = [] ∨ rest.head? = some '/') := by
  unfold contains
  constructor
  · intro h
    split at h
    · next heq =>
      refine ⟨[], ?_, .inl rfl⟩
      rw [List.append_nil]
      simpa using (List.isPrefixOf?_eq_some_iff_append_eq.mp heq).symm
    · next c rest heq =>
      refine ⟨c :: rest, (List.isPrefixOf?_eq_some_iff_append_eq.mp heq).symm, .inr ?_⟩
      simpa using h
    · exact absurd h (by simp)
  · rintro ⟨rest, hpath, hrest⟩
    rw [List.isPrefixOf?_eq_some_iff_append_eq.mpr hpath.symm]
    rcases hrest with rfl | hrest
    · rfl
    · cases rest with
      | nil => rfl
      | cons c rest => simpa using hrest

theorem contains_trans {outer inner : ProjectRoot} {path : String}
    (h : outer.contains inner.text = true) (hpath : inner.contains path = true) :
    outer.contains path = true := by
  obtain ⟨mid, hmid, hslash⟩ := contains_iff.mp h
  obtain ⟨rest, hrest, hslash'⟩ := contains_iff.mp hpath
  refine contains_iff.mpr ⟨mid ++ rest, by rw [hrest, hmid, List.append_assoc], ?_⟩
  rcases hslash with rfl | hslash
  · -- the inner root is the outer one
    simpa using hslash'
  · right
    rw [List.head?_append, hslash]
    rfl

/-- Exactly the paths in a root have a package there. -/
theorem exists_relativePackage_iff {root : ProjectRoot} {path : String} :
    (∃ package, root.relativePackage? path = some package) ↔ root.contains path = true := by
  unfold relativePackage?
  by_cases h : root.contains path = true
  · simp only [h, if_true, iff_true]
    split <;> exact ⟨_, rfl⟩
  · simp [h]

/-- The package of a path is what follows the root and the slashes after it. -/
theorem relativePackage?_of_append {root : ProjectRoot} {path : String} {rest : List Char}
    (hpath : path.toList = root.text.toList ++ rest) (hrest : rest = [] ∨ rest.head? = some '/') :
    root.relativePackage? path =
      match rest.dropWhile isSlash with
      | [] => some "."
      | package => some (String.ofList package) := by
  have hcontains : root.contains path = true := contains_iff.mpr ⟨rest, hpath, hrest⟩
  have hdrop : path.toList.drop root.text.toList.length = rest := by
    rw [hpath, List.drop_left]
  unfold relativePackage?
  rw [← hdrop]
  exact if_pos hcontains

/-- Reading the text of a root gives the root again. -/
@[simp] theorem ofString_text (root : ProjectRoot) : ofString root.text = root := by
  have htail : Text.dropTail isSlash root.text.toList = root.text.toList :=
    Text.dropTail_eq_self fun c hc => by
      have hne : c ≠ '/' := fun heq => root.no_slash_at_end (by rw [← heq]; exact hc)
      simpa [isSlash] using hne
  cases root
  simp only [ofString, ofChars, mk.injEq] at htail ⊢
  rw [htail, String.ofList_toList]

theorem text_injective : Function.Injective text :=
  Function.LeftInverse.injective ofString_text

/-! ## Roots at the first segments of a path -/

/-- The path with the segments of two lists, the second of which may be missing. -/
theorem joinSegments_append {front back : List (List Char)} (hfront : front ≠ []) :
    ∃ rest, joinSegments (front ++ back) = joinSegments front ++ rest ∧
      (rest = [] ∨ rest.head? = some '/') := by
  unfold joinSegments
  cases back with
  | nil => exact ⟨[], by simp, .inl rfl⟩
  | cons part parts =>
      refine ⟨'/' :: ['/'].intercalate (part :: parts), ?_, .inr rfl⟩
      induction front with
      | nil => exact absurd rfl hfront
      | cons first others ih =>
          cases others with
          | nil => simp
          | cons second others => simpa using ih (by simp)

/-- The root at a nonempty beginning of the segments of a path contains the path. -/
theorem contains_of_segments {path : String} {front back : List (List Char)}
    (h : segments path.toList = front ++ back) (hfront : front ≠ []) :
    (ofChars (joinSegments front)).contains path = true := by
  obtain ⟨rest, hjoin, hrest⟩ := joinSegments_append hfront
  have hpath : path.toList = joinSegments front ++ rest := by
    rw [← hjoin, ← h]
    exact (List.intercalate_splitOn '/').symm
  -- The slashes that `ofChars` drops stand between the root and the rest.
  have hsplit := Text.dropTail_append_reverse_takeWhile isSlash (joinSegments front)
  have hslashes : ∀ c ∈ ((joinSegments front).reverse.takeWhile isSlash).reverse, c = '/' := by
    intro c hc
    have := List.mem_takeWhile_imp (List.mem_reverse.mp hc)
    simpa [isSlash] using this
  refine contains_iff.mpr ⟨((joinSegments front).reverse.takeWhile isSlash).reverse ++ rest, ?_, ?_⟩
  · rw [hpath, ← List.append_assoc]
    simp [ofChars, hsplit]
  · cases htail : ((joinSegments front).reverse.takeWhile isSlash).reverse with
    | nil => simpa using hrest
    | cons c slashes =>
        rw [htail] at hslashes
        have hc : c = '/' := hslashes c (by simp)
        right
        simp [hc]

end ProjectRoot

end Relock
