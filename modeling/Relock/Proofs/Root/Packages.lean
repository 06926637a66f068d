import Mathlib.Data.Set.Function
import Relock.Proofs.Root.Segments
import Relock.Proofs.Text.Bytes

/-!
# Packages below a root

What a root contains, and what it calls the paths in it. Containment is the prefix order of
segments, and the package of a path is what follows the root and a slash; `.` is the root itself.
Different paths have different packages, if they are written with one slash after the root and do
not go through `.` right there (`injOn_relativePackage?`).

Paths are compared byte by byte, and the package is cut out of the bytes of the path. This comes to
the same (`contains_iff_bytes`, `relativePackage?_bytes`), as no character begins with the bytes of
another one.

`SegmentOrder` puts together what holds of any root.
-/

namespace Relock

/-! ## Slashes among the bytes -/

def slashByte : UInt8 := 0x2F

theorem head?_bytes_iff {cs : List Char} :
    (Text.bytes cs).head? = some slashByte ↔ cs.head? = some '/' := by
  constructor
  · intro h
    obtain ⟨rest, hrest⟩ := List.head?_eq_some_iff.mp h
    have hprefix : Text.bytes ['/'] <+: Text.bytes cs := ⟨rest, hrest.symm⟩
    obtain ⟨back, rfl⟩ := Text.isPrefix_of_bytes hprefix
    rfl
  · intro h
    obtain ⟨rest, rfl⟩ := List.head?_eq_some_iff.mp h
    rfl

theorem dropWhile_bytes (cs : List Char) :
    (Text.bytes cs).dropWhile (· == slashByte) = Text.bytes (cs.dropWhile isSlash) := by
  induction cs with
  | nil => rfl
  | cons c cs ih =>
      by_cases hc : c = '/'
      · subst hc
        rw [List.dropWhile_cons_of_pos (by rfl), ← ih]
        rfl
      · rw [List.dropWhile_cons_of_neg (by simpa [isSlash] using hc)]
        have hhead : (Text.bytes (c :: cs)).head? ≠ some slashByte := by
          rw [Ne, head?_bytes_iff]
          simpa using hc
        cases hbytes : Text.bytes (c :: cs) with
        | nil => rfl
        | cons b rest =>
            rw [hbytes] at hhead
            exact List.dropWhile_cons_of_neg (by simpa using hhead)

namespace ProjectRoot

variable {root : ProjectRoot}

/-- A path is in a root if its bytes begin with those of the root and go on with a slash, or not at
all. -/
theorem contains_iff_bytes {path : String} : root.contains path = true ↔
    ∃ rest, path.toUTF8.data.toList = root.text.toUTF8.data.toList ++ rest ∧
      (rest = [] ∨ rest.head? = some slashByte) := by
  rw [contains_iff, ← Text.bytes_toList, ← Text.bytes_toList]
  constructor
  · rintro ⟨rest, hpath, hrest⟩
    refine ⟨Text.bytes rest, by rw [hpath, Text.bytes_append], ?_⟩
    rcases hrest with rfl | hslash
    · exact .inl rfl
    · exact .inr (head?_bytes_iff.mpr hslash)
  · rintro ⟨rest, hpath, hrest⟩
    obtain ⟨back, hback⟩ := Text.isPrefix_of_bytes ⟨rest, hpath.symm⟩
    have hbytes : Text.bytes back = rest := by
      rw [← hback, Text.bytes_append] at hpath
      exact List.append_cancel_left hpath
    refine ⟨back, hback.symm, ?_⟩
    rw [← hbytes] at hrest
    exact hrest.imp Text.bytes_eq_nil_iff.mp head?_bytes_iff.mp

/-- The package of a path is cut out of its bytes: it is what follows those of the root and the
slashes after them. -/
theorem relativePackage?_bytes {path package : String} (h : root.relativePackage? path = some package)
    {rest : List UInt8} (hrest : (path.toUTF8.data.toList.drop
      root.text.toUTF8.data.toList.length).dropWhile (· == slashByte) = rest) :
    package.toUTF8.data.toList = if rest = [] then ".".toUTF8.data.toList else rest := by
  obtain ⟨back, hpath, hback⟩ := contains_iff.mp (exists_relativePackage_iff.mp ⟨package, h⟩)
  rw [relativePackage?_of_append hpath hback] at h
  rw [← Text.bytes_toList, ← Text.bytes_toList, hpath, Text.bytes_append, List.drop_left,
    dropWhile_bytes] at hrest
  subst hrest
  split at h
  · next hnil =>
    rw [hnil, Text.bytes_nil, if_pos rfl, Option.some.inj h]
  · next hne =>
    rw [if_neg (mt Text.bytes_eq_nil_iff.mp hne), ← Option.some.inj h, ← Text.bytes_toList,
      String.toList_ofList]

/-! ## Packages of paths -/

theorem relativePackage?_eq_none_iff {path : String} :
    root.relativePackage? path = none ↔ root.contains path = false := by
  rw [← Bool.not_eq_true, ← exists_relativePackage_iff, Option.eq_none_iff_forall_ne_some,
    not_exists]

@[simp] theorem relativePackage?_text (root : ProjectRoot) :
    root.relativePackage? root.text = some "." :=
  relativePackage?_of_append (List.append_nil _).symm (.inl rfl)

/-- A text that can follow a root and a slash: it is not empty and begins with no other slash. -/
def IsBelow (rest : String) : Prop := rest ≠ "" ∧ rest.toList.head? ≠ some '/'

theorem relativePackage?_below {rest : String} (h : IsBelow rest) :
    root.relativePackage? (root.text ++ "/" ++ rest) = some rest := by
  have hpath : (root.text ++ "/" ++ rest).toList = root.text.toList ++ '/' :: rest.toList := by
    simp
  rw [relativePackage?_of_append hpath (.inr rfl), List.dropWhile_cons_of_pos (by rfl)]
  cases hrest : rest.toList with
  | nil => exact absurd (String.toList_eq_nil_iff.mp hrest) h.1
  | cons c cs =>
      have hc : c ≠ '/' := by
        intro hslash
        exact h.2 (by rw [hrest, hslash, List.head?_cons])
      rw [List.dropWhile_cons_of_neg (by simpa [isSlash] using hc)]
      show some (String.ofList (c :: cs)) = some rest
      rw [← hrest, String.ofList_toList]

/-- The paths that are written with one slash after the root, and the root itself. -/
inductive Writes (root : ProjectRoot) : String → Prop
  | self : Writes root root.text
  | below {rest : String} (h : IsBelow rest) : Writes root (root.text ++ "/" ++ rest)

/-- Different paths have different packages, but for the one that goes through `.`. -/
theorem injOn_relativePackage? (root : ProjectRoot) :
    Set.InjOn root.relativePackage? {path | root.Writes path ∧ path ≠ root.text ++ "/" ++ "."} := by
  rintro path ⟨hpath, hdot⟩ path' ⟨hpath', hdot'⟩ hsame
  cases hpath with
  | self =>
      cases hpath' with
      | self => rfl
      | below h' =>
          rw [relativePackage?_text, relativePackage?_below h'] at hsame
          obtain rfl := Option.some.inj hsame
          exact absurd rfl hdot'
  | below h =>
      cases hpath' with
      | self =>
          rw [relativePackage?_text, relativePackage?_below h] at hsame
          obtain rfl := Option.some.inj hsame
          exact absurd rfl hdot
      | below h' =>
          rw [relativePackage?_below h, relativePackage?_below h'] at hsame
          rw [Option.some.inj hsame]

/-! ## Any root -/

/-- What holds of what a root contains, and of the packages of paths in it. -/
structure SegmentOrder (root : ProjectRoot) : Prop where
  /-- A root contains exactly the paths whose segments begin with its own. -/
  segments_iff : ∀ path, root.contains path = true ↔
    segments root.text.toList <+: segments path.toList
  /-- That can be told byte by byte. -/
  bytes_iff : ∀ path, root.contains path = true ↔
    ∃ rest, path.toUTF8.data.toList = root.text.toUTF8.data.toList ++ rest ∧
      (rest = [] ∨ rest.head? = some slashByte)
  refl : root.contains root.text = true
  antisymm : ∀ other : ProjectRoot, root.contains other.text = true →
    other.contains root.text = true → root = other
  trans : ∀ (inner : ProjectRoot) path, root.contains inner.text = true →
    inner.contains path = true → root.contains path = true
  /-- Of two roots that contain the same path one contains the other. -/
  comparable : ∀ (other : ProjectRoot) path, root.contains path = true →
    other.contains path = true → root.contains other.text = true ∨ other.contains root.text = true
  package_eq_none_iff : ∀ path, root.relativePackage? path = none ↔ root.contains path = false
  package_self : root.relativePackage? root.text = some "."
  package_below : ∀ rest, IsBelow rest →
    root.relativePackage? (root.text ++ "/" ++ rest) = some rest
  /-- The package is cut out of the bytes of the path. -/
  package_bytes : ∀ path package rest, root.relativePackage? path = some package →
    (path.toUTF8.data.toList.drop root.text.toUTF8.data.toList.length).dropWhile
      (· == slashByte) = rest →
    package.toUTF8.data.toList = if rest = [] then ".".toUTF8.data.toList else rest
  injOn_package :
    Set.InjOn root.relativePackage? {path | root.Writes path ∧ path ≠ root.text ++ "/" ++ "."}

/-- Containment in roots is the prefix order of segments, and packages tell paths apart. -/
theorem segmentOrder (root : ProjectRoot) : root.SegmentOrder where
  segments_iff _ := contains_iff_isPrefix
  bytes_iff _ := contains_iff_bytes
  refl := contains_self root
  antisymm _ h h' := contains_antisymm h h'
  trans _ _ h h' := contains_trans h h'
  comparable _ _ h h' := contains_or_contains h h'
  package_eq_none_iff _ := relativePackage?_eq_none_iff
  package_self := relativePackage?_text root
  package_below _ h := relativePackage?_below h
  package_bytes _ _ _ h hrest := relativePackage?_bytes h hrest
  injOn_package := injOn_relativePackage? root

end ProjectRoot

end Relock
