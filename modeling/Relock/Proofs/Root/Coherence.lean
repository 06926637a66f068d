import Relock.Proofs.Root.Convention
import Relock.Proofs.Root.Nesting

/-!
# Paths agree on a root by convention

A path whose root can be told from it alone shares this root with the paths around it: with its own
beginnings as far as they lie in the root, and with all that lies further below, unless a repository
mark is in between (`coherent_of_root?`).

* **slashes** (`exists_segments_trimSlashes`): trimming a path takes empty segments from its two
  ends. A root by convention neither begins nor ends with an empty segment
  (`head?_segments_of_root?`, `getLast?_segments_of_root?`), so nothing of it is taken
  (`segments_trimSlashes_of_append`).
* **marks** (`NoMarkBelow`): what follows the root in a path has no mark, unless the root itself was
  found by one (`exists_segments_of_root?`, and `exists_segments_written` before trimming).
* **the rule** (`root?_of_segments`): these two facts alone decide on the root of a path.
-/

namespace Relock

/-! ## Slashes at the ends -/

theorem segments_replicate_append (n : Nat) (path : List Char) :
    segments (List.replicate n '/' ++ path) = List.replicate n [] ++ segments path := by
  induction n with
  | zero => rfl
  | succ n ih =>
      rw [List.replicate_succ, List.replicate_succ, List.cons_append, List.cons_append, ← ih]
      exact segments_append_slash [] _

theorem segments_append_replicate (path : List Char) (n : Nat) :
    segments (path ++ List.replicate n '/') = segments path ++ List.replicate n [] := by
  cases n with
  | zero => simp
  | succ n =>
      have hslashes := segments_replicate_append n []
      rw [List.append_nil] at hslashes
      rw [List.replicate_succ, segments_append_slash, hslashes, List.replicate_succ']
      rfl

theorem takeWhile_isSlash (cs : List Char) :
    cs.takeWhile isSlash = List.replicate (cs.takeWhile isSlash).length '/' := by
  refine List.eq_replicate_of_mem fun c hc => ?_
  simpa [isSlash] using List.mem_takeWhile_imp hc

/-- Trimming takes empty segments from the two ends. -/
theorem exists_segments_trimSlashes (path : String) :
    ∃ m n, segments path.toList =
      List.replicate m [] ++ (segments (trimSlashes path).toList ++ List.replicate n []) := by
  have hfront := @List.takeWhile_append_dropWhile _ isSlash path.toList
  have htail := Text.dropTail_append_reverse_takeWhile isSlash (path.toList.dropWhile isSlash)
  rw [takeWhile_isSlash] at hfront
  rw [takeWhile_isSlash, List.reverse_replicate] at htail
  generalize (path.toList.takeWhile isSlash).length = m at hfront
  generalize ((path.toList.dropWhile isSlash).reverse.takeWhile isSlash).length = n at htail
  refine ⟨m, n, ?_⟩
  rw [← hfront, ← htail, segments_replicate_append, segments_append_replicate, trimSlashes,
    Text.trimEnds, String.toList_ofList]

theorem eq_of_replicate_append {α : Type} {x : α} {m n : Nat} {xs ys : List α}
    (h : List.replicate m x ++ xs = List.replicate n x ++ ys) (hxs : xs.head? ≠ some x)
    (hys : ys.head? ≠ some x) : xs = ys := by
  induction m generalizing n with
  | zero =>
      cases n with
      | zero => exact h
      | succ n =>
          obtain rfl : xs = x :: (List.replicate n x ++ ys) := h
          exact absurd rfl hxs
  | succ m ih =>
      cases n with
      | zero =>
          obtain rfl : x :: (List.replicate m x ++ xs) = ys := h
          exact absurd rfl hys
      | succ n => exact ih (List.cons.inj h).2

/-- A path that begins with an empty segment is empty, or begins with a slash. -/
theorem eq_nil_or_of_head?_segments {path : List Char} (h : (segments path).head? = some []) :
    path = [] ∨ path.head? = some '/' := by
  cases path with
  | nil => exact .inl rfl
  | cons c rest =>
      right
      rw [segments, List.splitOn_cons_eq_if_modifyHead] at h
      split at h
      · next hc =>
        have hslash : c = '/' := by simpa using hc
        rw [hslash]
        rfl
      · simp [List.head?_modifyHead] at h

/-- Only the empty path begins with an empty segment after trimming. -/
theorem trimSlashes_eq_empty_of_head?_segments {path : String}
    (h : (segments (trimSlashes path).toList).head? = some []) : trimSlashes path = "" := by
  rcases eq_nil_or_of_head?_segments h with hempty | hslash
  · simpa using hempty
  · exact absurd hslash (head?_trimSlashes path)

/-- A path that trims to nothing has only empty segments. -/
theorem eq_nil_of_mem_segments {path : String} (h : trimSlashes path = "") {part : List Char}
    (hpart : part ∈ segments path.toList) : part = [] := by
  obtain ⟨m, n, htrim⟩ := exists_segments_trimSlashes path
  rw [htrim, h, List.mem_append, List.mem_append] at hpart
  rcases hpart with hfront | hempty | hback
  · exact List.eq_of_mem_replicate hfront
  · simpa [segments] using hempty
  · exact List.eq_of_mem_replicate hback

namespace Convention

section

variable {path : String} {root : ProjectRoot}

/-! ## The ends of a root -/

theorem getLast?_segments_of_root? (h : root? path = some root) :
    (segments root.text.toList).getLast? ≠ some [] := by
  intro hempty
  obtain ⟨last, hlast, hne⟩ : ∃ last, (segments root.text.toList).getLast? = some last ∧
      last ≠ [] := by
    rcases front_of_root? h with hmark | ⟨-, hhost⟩
    · exact exists_getLast?_of_throughMark? hmark
    · exact exists_getLast?_of_byHost? hhost
  rw [hempty] at hlast
  exact hne (Option.some.inj hlast).symm

theorem head?_segments_of_root? (h : root? path = some root) :
    (segments root.text.toList).head? ≠ some [] := by
  intro hempty
  have hnone : root? "" = none := by decide +kernel
  -- the path begins as its root does, and only the empty path begins so
  obtain ⟨back, hback⟩ := ProjectRoot.contains_iff_isPrefix.mp (contains_of_root? h)
  have hhead : (segments (trimSlashes path).toList).head? = some [] := by
    rw [← hback, List.head?_append, hempty]
    rfl
  rw [← root?_trimSlashes, trimSlashes_eq_empty_of_head?_segments hhead, hnone] at h
  exact absurd h (by simp)

/-- Trimming takes nothing of a root by convention, wherever it stands. -/
theorem segments_trimSlashes_of_append (h : root? path = some root) {inner : String} {m : Nat}
    {back : List (List Char)} (hinner : segments inner.toList =
      List.replicate m [] ++ (segments root.text.toList ++ back)) :
    ∃ rest n, segments (trimSlashes inner).toList = segments root.text.toList ++ rest ∧
      back = rest ++ List.replicate n [] := by
  have hlast := getLast?_segments_of_root? h
  have hfirst : (segments root.text.toList ++ back).head? ≠ some [] := by
    rw [List.head?_append_of_ne_nil _ (segments_ne_nil _)]
    exact head?_segments_of_root? h
  obtain ⟨k, n, htrim⟩ := exists_segments_trimSlashes inner
  rw [hinner] at htrim
  have hhead : (segments (trimSlashes inner).toList ++ List.replicate n []).head? ≠ some [] := by
    rw [List.head?_append_of_ne_nil _ (segments_ne_nil _)]
    intro hempty
    have hne := segments_ne_nil root.text.toList
    -- the first segment of the root would be one of a path that trims to nothing
    have hmem : (segments root.text.toList).head hne ∈ segments inner.toList := by
      rw [hinner]
      exact List.mem_append_right _ (List.mem_append_left _ (List.head_mem hne))
    apply head?_segments_of_root? h
    rw [List.head?_eq_some_head hne, Option.some.injEq]
    exact eq_nil_of_mem_segments (trimSlashes_eq_empty_of_head?_segments hempty) hmem
  have hsame := eq_of_replicate_append htrim hfirst hhead
  rcases List.append_eq_append_iff.mp hsame with ⟨rest, htrimmed, hback⟩ | ⟨rest, hroot, hback⟩
  · exact ⟨rest, n, htrimmed, hback⟩
  · cases rest using List.reverseRecOn with
    | nil => exact ⟨[], n, by simpa using hroot.symm, by simpa using hback.symm⟩
    | append_singleton rest last =>
        have hmem : last ∈ List.replicate n [] := by simp [hback]
        rw [hroot, List.eq_of_mem_replicate hmem] at hlast
        exact absurd (by simp) hlast

/-! ## Marks below a root -/

theorem throughMark?_eq_none_iff {parts : List (List Char)} :
    throughMark? parts = none ↔ ∀ part ∈ parts, isMarked part = false := by
  induction parts with
  | nil => simp [throughMark?]
  | cons part parts ih =>
      rw [List.forall_mem_cons, throughMark?]
      cases hpart : isMarked part with
      | true => simp
      | false => simpa using ih

/-- The segments below a root have no mark, unless the root itself has one. -/
def NoMarkBelow (root : ProjectRoot) (back : List (List Char)) : Prop :=
  (∃ part ∈ segments root.text.toList, isMarked part = true) ∨
    ∀ part ∈ back, isMarked part = false

instance (root : ProjectRoot) (back : List (List Char)) : Decidable (NoMarkBelow root back) :=
  inferInstanceAs (Decidable (_ ∨ _))

theorem NoMarkBelow.append {back more : List (List Char)} (h : NoMarkBelow root back)
    (hmore : ∀ part ∈ more, isMarked part = false) : NoMarkBelow root (back ++ more) := by
  refine h.imp_right fun hback part hpart => ?_
  rcases List.mem_append.mp hpart with hmem | hmem
  · exact hback part hmem
  · exact hmore part hmem

theorem NoMarkBelow.of_isPrefix {front back : List (List Char)} (h : NoMarkBelow root back)
    (hfront : front <+: back) : NoMarkBelow root front :=
  h.imp_right fun hback part hpart => hback part (hfront.subset hpart)

theorem exists_segments_of_root? (h : root? path = some root) :
    ∃ back, segments (trimSlashes path).toList = segments root.text.toList ++ back ∧
      NoMarkBelow root back := by
  obtain ⟨back, hback⟩ := ProjectRoot.contains_iff_isPrefix.mp (contains_of_root? h)
  refine ⟨back, hback.symm, ?_⟩
  cases hmark : throughMark? (segments (trimSlashes path).toList) with
  | none =>
      right
      intro part hpart
      apply throughMark?_eq_none_iff.mp hmark
      rw [← hback]
      exact List.mem_append_right _ hpart
  | some front =>
      left
      -- the path is gone through up to the mark, and so is the root
      rw [root?, hmark, Option.some_or, Option.map_some, Option.some.injEq] at h
      obtain ⟨others, hfront, -⟩ := throughMark?_eq_append hmark
      obtain ⟨last, hlast, hne⟩ := exists_getLast?_of_throughMark? hmark
      rw [← h, ProjectRoot.segments_ofChars_of_append hfront hlast hne]
      by_contra hnone
      have hthrough : throughMark? front = none := by
        rw [throughMark?_eq_none_iff]
        simpa using hnone
      have hself := throughMark?_append_of_some hmark []
      rw [List.append_nil, hthrough] at hself
      exact absurd hself (by simp)

theorem exists_segments_written (h : root? path = some root) :
    ∃ m back, segments path.toList =
        List.replicate m [] ++ (segments root.text.toList ++ back) ∧ NoMarkBelow root back := by
  obtain ⟨back, hback, hmarks⟩ := exists_segments_of_root? h
  obtain ⟨m, n, htrim⟩ := exists_segments_trimSlashes path
  refine ⟨m, back ++ List.replicate n [], ?_, hmarks.append fun part hempty => ?_⟩
  · rw [htrim, hback, List.append_assoc]
  · rw [List.eq_of_mem_replicate hempty]
    rfl

/-! ## The rule -/

/-- Where a root by convention stands in a path, it is the root of the path, unless there is a mark
below it. -/
theorem root?_of_segments (h : root? path = some root) {inner : String} {m : Nat}
    {back : List (List Char)}
    (hinner : segments inner.toList = List.replicate m [] ++ (segments root.text.toList ++ back))
    (hmarks : NoMarkBelow root back) : root? inner = some root := by
  obtain ⟨rest, n, htrim, rfl⟩ := segments_trimSlashes_of_append h hinner
  refine root?_eq_of_segments ?_ rfl
  rw [htrim]
  rcases front_of_root? h with hmark | ⟨hnone, hhost⟩
  · rw [throughMark?_append_of_some hmark, Option.some_or]
  · have hrest : throughMark? rest = none := by
      rw [throughMark?_eq_none_iff] at hnone ⊢
      rcases hmarks.of_isPrefix (List.prefix_append rest _) with ⟨part, hmem, hmarked⟩ | hrest
      · exact absurd hmarked (by simp [hnone part hmem])
      · exact hrest
    rw [throughMark?_append_of_none hnone, hrest, Option.map_none, Option.none_or,
      byHost?_append hhost]

/-- The beginnings of a path that lie in its root have the same root. -/
theorem root?_of_isPrefix (h : root? path = some root) {inner : String}
    (hinner : segments inner.toList <+: segments path.toList)
    (hcontains : root.contains inner = true) : root? inner = some root := by
  obtain ⟨rest, hrest⟩ := ProjectRoot.contains_iff_isPrefix.mp hcontains
  obtain ⟨m, back, hpath, hmarks⟩ := exists_segments_written h
  rw [← hrest, hpath] at hinner
  cases m with
  | zero =>
      have hbelow : rest <+: back := (List.prefix_append_right_inj _).mp hinner
      exact root?_of_segments h (m := 0) hrest.symm (hmarks.of_isPrefix hbelow)
  | succ m =>
      -- the path begins with an empty segment, and its beginning with that of the root
      obtain ⟨tail, htail⟩ := hinner
      have hhead := congrArg List.head? htail
      rw [List.append_assoc, List.head?_append_of_ne_nil _ (segments_ne_nil _)] at hhead
      exact absurd hhead (head?_segments_of_root? h)

/-- A root is that of a path, of the path's beginnings and extensions, and of what lies below it. -/
structure Coherent (path : String) (root : ProjectRoot) : Prop where
  contains : root.contains (trimSlashes path) = true
  /-- The root is its own root. -/
  own : root? root.text = some root
  /-- The beginnings of the path that lie in the root have it too. -/
  beginning : ∀ inner : String,
    segments inner.toList <+: segments path.toList ∨
      segments inner.toList <+: segments (trimSlashes path).toList →
    root.contains inner = true → root? inner = some root
  /-- The path can go on as long as there is no mark. -/
  extension : ∀ more : String, (∀ part ∈ segments more.toList, isMarked part = false) →
    root? (path ++ "/" ++ more) = some root
  /-- Below the root only marks make other roots, and none do if the root was found by one. -/
  below : ∀ inner : String, root.contains (trimSlashes inner) = true →
    (root? inner = some root ↔ NoMarkBelow root
      ((segments (trimSlashes inner).toList).drop (segments root.text.toList).length))

/-- All that lies in a root by convention agrees on it, up to marks. -/
theorem coherent_of_root? (h : root? path = some root) : Coherent path root where
  contains := contains_of_root? h
  own := by
    have hself : segments root.text.toList =
        List.replicate 0 [] ++ (segments root.text.toList ++ []) := by simp
    exact root?_of_segments h hself (.inr (by simp))
  beginning inner hinner hcontains := by
    -- the path may be compared with or without the slashes at its ends
    rcases hinner with hwhole | htrimmed
    · exact root?_of_isPrefix h hwhole hcontains
    · rw [← root?_trimSlashes] at h
      exact root?_of_isPrefix h htrimmed hcontains
  extension more hmore := by
    obtain ⟨m, back, hpath, hmarks⟩ := exists_segments_written h
    have hlonger : segments (path ++ "/" ++ more).toList =
        List.replicate m [] ++ (segments root.text.toList ++ (back ++ segments more.toList)) := by
      calc segments (path ++ "/" ++ more).toList
          = segments (path.toList ++ '/' :: more.toList) := by simp
        _ = segments path.toList ++ segments more.toList := segments_append_slash _ _
        _ = _ := by rw [hpath, List.append_assoc, List.append_assoc]
    exact root?_of_segments h hlonger (hmarks.append hmore)
  below inner hinner := by
    obtain ⟨back, hback⟩ := ProjectRoot.contains_iff_isPrefix.mp hinner
    rw [← hback, List.drop_left]
    constructor
    · intro hroot
      obtain ⟨own, hown, hmarks⟩ := exists_segments_of_root? hroot
      rw [← hback] at hown
      rwa [List.append_cancel_left hown]
    · intro hmarks
      rw [← root?_trimSlashes]
      exact root?_of_segments h (m := 0) (by simpa using hback.symm) hmarks

theorem coherent_of_root?_twoRules :
    (root? "github.com/a/b/c" = some (.ofString "github.com/a/b") ∧
      root? "github.com/a/b/c/d/e" = some (.ofString "github.com/a/b") ∧
      root? "github.com/a/b/d.git" ≠ some (.ofString "github.com/a/b")) ∧
    root? "example.org/x.git/y" = some (.ofString "example.org/x.git") ∧
      root? "example.org/x.git/z.git" = some (.ofString "example.org/x.git") := by
  have hhost : root? "github.com/a/b/c" = some (.ofString "github.com/a/b") := by decide +kernel
  have hmark : root? "example.org/x.git/y" = some (.ofString "example.org/x.git") := by
    decide +kernel
  have hbelow := (coherent_of_root? hhost).below "github.com/a/b/d.git" (by decide +kernel)
  refine ⟨⟨hhost, (coherent_of_root? hhost).extension "d/e" (by decide +kernel), ?_⟩, hmark, ?_⟩
  · rw [ne_eq, hbelow]
    decide +kernel
  · apply ((coherent_of_root? hmark).below "example.org/x.git/z.git" (by decide +kernel)).mpr
    exact Or.inl (by decide +kernel)

end

end Convention

end Relock
