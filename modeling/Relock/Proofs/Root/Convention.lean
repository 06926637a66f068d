import Relock.Proofs.Root.Deduction
import Relock.Proofs.Root.Segments

/-!
# Conventions are coherent

The two rules by which a root is told from a path alone look at a beginning of its segments, and do
so alike for every path that begins in the same way: going through a mark
(`throughMark?_append_of_some`) as well as a host's habits (`byHost?_append`). So a root by
convention is its own root, and a path below it has a root by convention too, which is that root or
lies below it (`exists_root?_of_contains`). It lies below if there is one more mark on the way.

`Deducer.Conventional` is what remains of a deducer that was only asked about paths with roots by
convention, none of which contains another one: it keeps giving every such path its root
(`Conventional.deduce`).
-/

namespace Relock

namespace Convention

/-! ## Marks -/

theorem throughMark?_append_of_none {front : List (List Char)} (h : throughMark? front = none)
    (back : List (List Char)) :
    throughMark? (front ++ back) = (throughMark? back).map (front ++ ·) := by
  induction front with
  | nil => simp
  | cons part parts ih =>
      simp only [throughMark?] at h
      split at h
      · exact absurd h (by simp)
      · next hpart =>
        rw [Option.map_eq_none_iff] at h
        simp only [List.cons_append, throughMark?, hpart, ih h, Option.map_map]
        rfl

theorem throughMark?_append_of_some {parts front : List (List Char)}
    (h : throughMark? parts = some front) (back : List (List Char)) :
    throughMark? (front ++ back) = some front := by
  induction parts generalizing front with
  | nil => simp [throughMark?] at h
  | cons part parts ih =>
      simp only [throughMark?] at h
      split at h
      · next hpart =>
        cases h
        simp [throughMark?, hpart]
      · next hpart =>
        obtain ⟨rest, hrest, rfl⟩ := Option.map_eq_some_iff.mp h
        simp [throughMark?, hpart, ih hrest]

/-- A beginning of segments without a mark has none. -/
theorem throughMark?_eq_none_of_append {front back : List (List Char)}
    (h : throughMark? (front ++ back) = none) : throughMark? front = none := by
  cases hfront : throughMark? front with
  | none => rfl
  | some through =>
      obtain ⟨others, rfl, _⟩ := throughMark?_eq_append hfront
      rw [List.append_assoc, throughMark?_append_of_some hfront] at h
      exact absurd h (by simp)

/-- What is gone through ends in a mark, which takes some characters. -/
theorem exists_getLast?_of_throughMark? {parts front : List (List Char)}
    (h : throughMark? parts = some front) : ∃ last, front.getLast? = some last ∧ last ≠ [] := by
  induction parts generalizing front with
  | nil => simp [throughMark?] at h
  | cons part parts ih =>
      simp only [throughMark?] at h
      split at h
      · next hpart =>
        cases h
        refine ⟨part, rfl, ?_⟩
        rintro rfl
        exact absurd hpart (by decide)
      · obtain ⟨rest, hrest, rfl⟩ := Option.map_eq_some_iff.mp h
        obtain ⟨last, hlast, hne⟩ := ih hrest
        exact ⟨last, by simp [List.getLast?_cons, hlast], hne⟩

/-! ## Hosts -/

/-- The first segments are as many as asked for, and none is empty. -/
theorem firstSegments?_spec {n : Nat} {parts front : List (List Char)}
    (h : firstSegments? n parts = some front) :
    front = parts.take n ∧ front.length = n ∧ ∀ part ∈ front, part ≠ [] := by
  simp only [firstSegments?] at h
  split at h
  · next hfront =>
    cases h
    refine ⟨rfl, hfront.1, ?_⟩
    intro part hpart
    have hall := List.all_eq_true.mp hfront.2 part hpart
    simpa using hall
  · exact absurd h (by simp)

theorem firstSegments?_append {n : Nat} {parts front : List (List Char)}
    (h : firstSegments? n parts = some front) (back : List (List Char)) :
    firstSegments? n (front ++ back) = some front := by
  obtain ⟨-, hlength, hfull⟩ := firstSegments?_spec h
  have htake : (front ++ back).take n = front := by
    rw [List.take_append_of_le_length (by omega), ← hlength, List.take_length]
  have hall : front.all (! ·.isEmpty) = true := by
    rw [List.all_eq_true]
    intro part hpart
    simpa using hfull part hpart
  simp only [firstSegments?, htake]
  rw [if_pos ⟨hlength, hall⟩]

theorem exists_of_firstSegments?_three {host : List Char} {rest front : List (List Char)}
    (h : firstSegments? 3 (host :: rest) = some front) :
    ∃ second third others, rest = second :: third :: others ∧ front = [host, second, third] := by
  obtain ⟨hfront, hlength, -⟩ := firstSegments?_spec h
  rcases rest with _ | ⟨second, _ | ⟨third, others⟩⟩
  · simp [hfront] at hlength
  · simp [hfront] at hlength
  · exact ⟨second, third, others, rfl, hfront⟩

/-- A host has the same habits for all paths that begin alike. -/
theorem byHost?_append {parts front : List (List Char)} (h : byHost? parts = some front)
    (back : List (List Char)) : byHost? (front ++ back) = some front := by
  cases parts with
  | nil => simp [byHost?] at h
  | cons host rest =>
      -- a case for each kind of host; what decides it stands in the first three segments
      simp only [byHost?] at h
      split at h
      · next howner =>
        obtain ⟨second, third, others, -, rfl⟩ := exists_of_firstSegments?_three h
        have hfirst := firstSegments?_append h back
        simpa [byHost?, howner] using hfirst
      · next howner =>
        split at h
        · next hx =>
          obtain ⟨second, third, others, rfl, rfl⟩ := exists_of_firstSegments?_three h
          have hfirst := firstSegments?_append h back
          have hsecond : second = ['x'] := by simpa using hx.2
          simpa [byHost?, howner, hx.1, hsecond] using hfirst
        · next hx =>
          split at h
          · next hgopkg =>
            have hother : "gopkg.in" ∉ ownerHosts := by decide
            rcases rest with _ | ⟨second, rest⟩
            · exact absurd h (by simp)
            · simp only at h
              split at h
              · next hsecond =>
                obtain ⟨hfront, -, -⟩ := firstSegments?_spec h
                obtain rfl : front = [host, second] := hfront
                simpa [byHost?, hgopkg, hother, hsecond] using
                  firstSegments?_append h back
              · next hsecond =>
                split at h
                · next hthird =>
                  obtain ⟨_, third, others, hrest, rfl⟩ := exists_of_firstSegments?_three h
                  have hfirst := firstSegments?_append h back
                  obtain ⟨rfl, rfl⟩ := List.cons.inj hrest
                  have hversioned : isVersioned third = true := by simpa using hthird
                  simpa [byHost?, hgopkg, hother, hsecond, hversioned] using hfirst
                · exact absurd h (by simp)
          · exact absurd h (by simp)

/-- A root at a host ends in a segment that is not empty. -/
theorem exists_getLast?_of_byHost? {parts front : List (List Char)}
    (h : byHost? parts = some front) : ∃ last, front.getLast? = some last ∧ last ≠ [] := by
  obtain ⟨n, hn, hfirst⟩ := firstSegments?_of_byHost? h
  obtain ⟨-, hlength, hfull⟩ := firstSegments?_spec hfirst
  have hne : front ≠ [] := List.ne_nil_of_length_pos (by omega)
  exact ⟨front.getLast hne, List.getLast?_eq_some_getLast hne, hfull _ (List.getLast_mem hne)⟩

/-! ## Roots -/

/-- A root by convention has the segments that its rule looked at, and the rule gives the same for
these segments alone. -/
theorem front_of_root? {path : String} {root : ProjectRoot} (h : root? path = some root) :
    throughMark? (segments root.text.toList) = some (segments root.text.toList) ∨
      throughMark? (segments root.text.toList) = none ∧
        byHost? (segments root.text.toList) = some (segments root.text.toList) := by
  unfold root? at h
  obtain ⟨front, hfront, rfl⟩ := Option.map_eq_some_iff.mp h
  rcases Option.or_eq_some_iff.mp hfront with hmark | ⟨hnone, hhost⟩
  · left
    obtain ⟨back, hback, -⟩ := throughMark?_eq_append hmark
    obtain ⟨last, hlast, hne⟩ := exists_getLast?_of_throughMark? hmark
    rw [ProjectRoot.segments_ofChars_of_append hback hlast hne]
    simpa using throughMark?_append_of_some hmark []
  · right
    obtain ⟨back, hback, -⟩ := byHost?_eq_append hhost
    obtain ⟨last, hlast, hne⟩ := exists_getLast?_of_byHost? hhost
    rw [ProjectRoot.segments_ofChars_of_append hback hlast hne]
    rw [hback] at hnone
    exact ⟨throughMark?_eq_none_of_append hnone, by simpa using byHost?_append hhost []⟩

theorem root?_eq_of_segments {path : String} {parts : List (List Char)} {root : ProjectRoot}
    (h : (throughMark? (segments (trimSlashes path).toList)).or
      (byHost? (segments (trimSlashes path).toList)) = some parts)
    (hparts : segments root.text.toList = parts) : root? path = some root := by
  have hroot : ProjectRoot.ofChars (joinSegments parts) = root := by
    rw [← hparts, joinSegments_segments]
    exact ProjectRoot.ofString_text root
  simp only [root?, h, Option.map_some, hroot]

/-- A path in a root by convention has a root by convention, which the first one contains. -/
theorem exists_root?_of_contains {path inner : String} {root : ProjectRoot}
    (h : root? path = some root) (hinner : root.contains (trimSlashes inner) = true) :
    ∃ own, root? inner = some own ∧ root.contains own.text = true := by
  obtain ⟨back, hback⟩ := ProjectRoot.contains_iff_isPrefix.mp hinner
  rcases front_of_root? h with hmark | ⟨hnone, hhost⟩
  · refine ⟨root, root?_eq_of_segments ?_ rfl, by simp⟩
    rw [← hback, throughMark?_append_of_some hmark, Option.some_or]
  · have hthrough := throughMark?_append_of_none hnone back
    rw [hback] at hthrough
    cases hmark : throughMark? back with
    | none =>
        refine ⟨root, root?_eq_of_segments ?_ rfl, by simp⟩
        rw [hthrough, hmark, Option.map_none, Option.none_or, ← hback, byHost?_append hhost]
    | some through =>
        -- there is one more mark below the root
        rw [hmark, Option.map_some] at hthrough
        obtain ⟨last, hlast, hne⟩ := exists_getLast?_of_throughMark? hmark
        obtain ⟨others, rfl, -⟩ := throughMark?_eq_append hmark
        rw [← List.append_assoc] at hback
        have hend : (segments root.text.toList ++ through).getLast? = some last := by
          simp [List.getLast?_append, hlast]
        have hsegments := ProjectRoot.segments_ofChars_of_append hback.symm hend hne
        refine ⟨_, root?_eq_of_segments (by rw [hthrough, Option.some_or]) hsegments, ?_⟩
        rw [ProjectRoot.contains_iff_isPrefix, hsegments]
        exact List.prefix_append _ _

/-- Slashes at the ends of a path do not count. -/
@[simp] theorem root?_trimSlashes (path : String) : root? (trimSlashes path) = root? path := by
  unfold root?
  rw [trimSlashes_trimSlashes]

end Convention

namespace Deducer

/-! ## Deducing by convention alone -/

/-- All that was answered is the root by convention, and the roots found are some of the given
ones. -/
structure Conventional (given : List ProjectRoot) (d : Deducer) : Prop where
  answers : ∀ path root?, d.answers.lookup path = some root? → root? = Convention.root? path
  roots : ∀ root ∈ d.roots, root ∈ given

theorem conventional_empty (given : List ProjectRoot) : empty.Conventional given where
  answers path root? h := absurd h (by simp [empty])
  roots root h := absurd h (by simp [empty])

theorem Conventional.remember {given : List ProjectRoot} {d : Deducer} (h : d.Conventional given)
    {path : String} {root? : Option ProjectRoot} (hroot : root? = Convention.root? path) :
    (d.remember path root?).Conventional given where
  answers other answer? hlookup := by
    simp only [Deducer.remember, List.lookup_cons] at hlookup
    split at hlookup
    · next heq =>
      have hpath : other = path := by simpa using heq
      rw [← Option.some.inj hlookup, hpath, hroot]
    · exact h.answers other answer? hlookup
  roots := h.roots

theorem Conventional.discover {given : List ProjectRoot} {d : Deducer} (h : d.Conventional given)
    {path : String} {root : ProjectRoot} (hroot : Convention.root? path = some root)
    (hgiven : root ∈ given) : (d.discover path root).Conventional given where
  answers := (h.remember hroot.symm).answers
  roots other hother := by
    rcases List.mem_append.mp hother with hold | hnew
    · exact h.roots other hold
    · rw [List.mem_singleton.mp hnew]
      exact hgiven

/-- A path whose root by convention is a given one gets this root, if no given root contains a
different one. -/
theorem Conventional.deduce {σ : Type} (provider : Provider σ) {given : List ProjectRoot}
    (hapart : ∀ root ∈ given, ∀ other ∈ given, root.contains other.text = true → root = other)
    {d : Deducer} (h : d.Conventional given) {path : String} {root : ProjectRoot}
    (hroot : Convention.root? path = some root) (hgiven : root ∈ given) (s : Session σ) :
    (d.deduce provider path s).1 = .ok root ∧
      (d.deduce provider path s).2.1.Conventional given := by
  have htrimmed : Convention.root? (trimSlashes path) = some root := by
    rw [Convention.root?_trimSlashes, hroot]
  cases hanswer : d.answers.lookup (trimSlashes path) with
  | some root? =>
      rw [deduce_of_answered hanswer, h.answers _ _ hanswer, htrimmed]
      exact ⟨rfl, h⟩
  | none =>
      cases hfound : d.roots.find? (·.contains (trimSlashes path)) with
      | some found =>
          have hmem := h.roots found (List.mem_of_find?_eq_some hfound)
          have hcontains := List.find?_some hfound
          -- both roots contain the path, so one of them contains the other
          have hsame : found = root := by
            rcases ProjectRoot.contains_or_contains hcontains
              (Convention.contains_of_root? hroot) with habove | hbelow
            · exact hapart found hmem root hgiven habove
            · exact (hapart root hgiven found hmem hbelow).symm
          rw [deduce_of_covered hanswer hfound, hsame]
          exact ⟨rfl, h.remember htrimmed.symm⟩
      | none =>
          rw [deduce_of_new hanswer hfound]
          simp only [find, search, htrimmed]
          exact ⟨trivial, h.discover htrimmed hgiven⟩

end Deducer

end Relock
