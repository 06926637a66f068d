import Relock.Proofs.Root.Containment

/-!
# Containment is the prefix order of segments

A path and the list of its segments say the same (`joinSegments_segments`, `segments_joinSegments`),
so containment of paths can be told by their segments: a root contains exactly the paths whose
segments begin with its own (`contains_iff_isPrefix`). Three facts follow from that:

* **antisymmetry**: two roots that contain each other are the same (`contains_antisymm`);
* **comparability**: of two roots that contain the same path one contains the other
  (`contains_or_contains`);
* **beginnings**: the root at the first segments of a path has just these segments, unless the last
  of them is empty (`segments_ofChars_of_append`).

The way back from a package to its path gives another path if the first one has empty segments or
goes through `.`, and only then (`packagePath_eq`).
-/

namespace Relock

/-! ## Segments of a path -/

theorem segments_ne_nil (path : List Char) : segments path ≠ [] :=
  List.splitOn_ne_nil '/' path

theorem joinSegments_segments (path : List Char) : joinSegments (segments path) = path :=
  List.intercalate_splitOn '/'

theorem segments_append_slash (front back : List Char) :
    segments (front ++ '/' :: back) = segments front ++ segments back :=
  List.splitOn_append_cons_self front back

/-- A path without empty segments begins with a character that is no slash. -/
theorem exists_cons_of_nil_not_mem_segments {path : List Char} (h : [] ∉ segments path) :
    ∃ c rest, path = c :: rest ∧ c ≠ '/' := by
  cases path with
  | nil => exact absurd (by simp [segments]) h
  | cons c rest =>
      refine ⟨c, rest, rfl, ?_⟩
      rintro rfl
      apply h
      rw [← List.nil_append ('/' :: rest), segments_append_slash]
      simp [segments]

/-- No segment holds a slash. -/
theorem slash_not_mem_of_mem_segments {path part : List Char} (h : part ∈ segments path) :
    '/' ∉ part := by
  unfold segments at h
  induction path generalizing part with
  | nil =>
      rw [List.splitOn_nil, List.mem_singleton] at h
      simp [h]
  | cons c rest ih =>
      rw [List.splitOn_cons_eq_if_modifyHead] at h
      split at h
      · rcases List.mem_cons.mp h with rfl | h
        · simp
        · exact ih h
      · next hc =>
        -- the character goes to the first segment of the rest, and it is no slash
        cases hrest : rest.splitOn '/' with
        | nil => exact absurd hrest (List.splitOn_ne_nil '/' rest)
        | cons first others =>
            rw [hrest] at h ih
            rcases List.mem_cons.mp h with rfl | h
            · have hfirst := ih List.mem_cons_self
              intro hmem
              rcases List.mem_cons.mp hmem with rfl | hmem
              · exact hc (by simp)
              · exact hfirst hmem
            · exact ih (List.mem_cons_of_mem _ h)

theorem segments_joinSegments {parts : List (List Char)} (hslash : ∀ part ∈ parts, '/' ∉ part)
    (hne : parts ≠ []) : segments (joinSegments parts) = parts :=
  List.splitOn_intercalate '/' hslash hne

/-- A path without empty segments and without the segment `.`. -/
def Plain (path : String) : Prop :=
  ∀ part ∈ segments path.toList, part ≠ [] ∧ part ≠ ['.']

namespace ProjectRoot

/-! ## The order of roots -/

/-- A root contains exactly the paths whose segments begin with its own. -/
theorem contains_iff_isPrefix {root : ProjectRoot} {path : String} :
    root.contains path = true ↔ segments root.text.toList <+: segments path.toList := by
  rw [contains_iff]
  constructor
  · rintro ⟨rest, hpath, hrest⟩
    rw [hpath]
    rcases hrest with rfl | hslash
    · simp only [List.append_nil, List.prefix_rfl]
    · obtain ⟨rest, rfl⟩ := List.head?_eq_some_iff.mp hslash
      rw [segments_append_slash]
      exact List.prefix_append _ _
  · rintro ⟨back, hback⟩
    obtain ⟨rest, hjoin, hrest⟩ :=
      @joinSegments_append (segments root.text.toList) back (segments_ne_nil _)
    refine ⟨rest, ?_, hrest⟩
    calc path.toList
        = joinSegments (segments path.toList) := (joinSegments_segments _).symm
      _ = joinSegments (segments root.text.toList ++ back) := by rw [hback]
      _ = joinSegments (segments root.text.toList) ++ rest := hjoin
      _ = root.text.toList ++ rest := by rw [joinSegments_segments]

@[simp] theorem contains_self (root : ProjectRoot) : root.contains root.text = true :=
  contains_iff_isPrefix.mpr List.prefix_rfl

theorem eq_of_segments_eq {a b : ProjectRoot}
    (h : segments a.text.toList = segments b.text.toList) : a = b := by
  have hchars : a.text.toList = b.text.toList := by
    rw [← joinSegments_segments a.text.toList, h, joinSegments_segments]
  rw [← ofString_text a, ← ofString_text b]
  unfold ofString
  rw [hchars]

theorem contains_antisymm {a b : ProjectRoot} (hab : a.contains b.text = true)
    (hba : b.contains a.text = true) : a = b := by
  have hprefix := contains_iff_isPrefix.mp hab
  have hprefix' := contains_iff_isPrefix.mp hba
  apply eq_of_segments_eq
  exact hprefix.eq_of_length (Nat.le_antisymm hprefix.length_le hprefix'.length_le)

/-- Of two roots that contain the same path one contains the other. -/
theorem contains_or_contains {a b : ProjectRoot} {path : String} (ha : a.contains path = true)
    (hb : b.contains path = true) : a.contains b.text = true ∨ b.contains a.text = true := by
  rw [contains_iff_isPrefix] at ha hb
  rw [contains_iff_isPrefix, contains_iff_isPrefix]
  exact List.prefix_or_prefix_of_prefix ha hb

/-! ## Roots at the first segments of a path -/

/-- The root at some segments has just these segments, unless the last of them is empty. -/
theorem segments_ofChars_joinSegments {parts : List (List Char)}
    (hslash : ∀ part ∈ parts, '/' ∉ part) {last : List Char} (hlast : parts.getLast? = some last)
    (hne : last ≠ []) : segments (ofChars (joinSegments parts)).text.toList = parts := by
  obtain ⟨front, rfl⟩ : ∃ front, parts = front ++ [last] := List.getLast?_eq_some_iff.mp hlast
  have hjoin := segments_joinSegments hslash (by simp)
  -- The last character is that of the last segment, and so no slash to be dropped.
  have hkept : Text.dropTail isSlash (joinSegments (front ++ [last])) =
      joinSegments (front ++ [last]) := by
    apply Text.dropTail_eq_self
    intro c hc
    obtain ⟨before, hbefore⟩ := List.getLast?_eq_some_iff.mp (Option.mem_def.mp hc)
    rw [hbefore] at hjoin
    by_cases hslashed : c = '/'
    · -- then there would be an empty segment after it
      rw [hslashed, segments_append_slash] at hjoin
      have hempty : (front ++ [last]).getLast? = some [] := by
        rw [← hjoin]
        simp [segments]
      rw [hlast] at hempty
      exact absurd (Option.some.inj hempty) hne
    · simpa [isSlash] using hslashed
  simp only [ofChars, hkept, String.toList_ofList, hjoin]

theorem segments_ofChars_of_append {path : List Char} {front back : List (List Char)}
    (h : segments path = front ++ back) {last : List Char} (hlast : front.getLast? = some last)
    (hne : last ≠ []) : segments (ofChars (joinSegments front)).text.toList = front := by
  refine segments_ofChars_joinSegments (fun part hpart => ?_) hlast hne
  have hmem : part ∈ segments path := by
    rw [h]
    exact List.mem_append_left _ hpart
  exact slash_not_mem_of_mem_segments hmem

/-! ## Packages -/

/-- The import path of a package below a root, `.` being the root itself. -/
def packagePath (root : ProjectRoot) (package : String) : String :=
  if package = "." then root.text else root.text ++ "/" ++ package

/-- A path that is plain is the path of its package. -/
theorem packagePath_eq {root : ProjectRoot} {path package : String}
    (h : root.relativePackage? path = some package) (hplain : Plain path) :
    root.packagePath package = path := by
  have hcontains := exists_relativePackage_iff.mp ⟨package, h⟩
  obtain ⟨rest, hpath, hrest⟩ := contains_iff.mp hcontains
  rw [relativePackage?_of_append hpath hrest] at h
  rcases hrest with rfl | hslash
  · -- the path is the root itself
    simp only [List.dropWhile_nil, Option.some.injEq] at h
    rw [List.append_nil] at hpath
    rw [packagePath, if_pos h.symm]
    exact String.toList_inj.mp hpath.symm
  · obtain ⟨tail, rfl⟩ := List.head?_eq_some_iff.mp hslash
    have hparts : ∀ part ∈ segments tail, part ≠ [] ∧ part ≠ ['.'] := by
      intro part hpart
      apply hplain
      rw [hpath, segments_append_slash]
      exact List.mem_append_right _ hpart
    -- after the slash the path goes on, and not with another slash
    have hnext := exists_cons_of_nil_not_mem_segments fun hempty => (hparts [] hempty).1 rfl
    obtain ⟨c, rest, rfl, hc⟩ := hnext
    rw [List.dropWhile_cons_of_pos (by rfl),
      List.dropWhile_cons_of_neg (by simpa [isSlash] using hc)] at h
    obtain rfl : String.ofList (c :: rest) = package := Option.some.inj h
    have hdot : String.ofList (c :: rest) ≠ "." := by
      intro hdot
      have htail : c :: rest = ['.'] := by simpa using congrArg String.toList hdot
      have hmem : ['.'] ∈ segments (c :: rest) := by
        rw [htail]
        decide
      exact (hparts ['.'] hmem).2 rfl
    rw [packagePath, if_neg hdot, ← String.toList_inj, hpath]
    simp

end ProjectRoot

end Relock
