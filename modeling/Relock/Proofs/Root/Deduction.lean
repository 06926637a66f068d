import Relock.Proofs.Root.Containment

/-!
# Deduced roots contain their paths

Whatever the provider answers, a root that a deducer gives contains the path it was asked about.

* **By convention** (`Convention.contains_of_root?`): the root is a beginning of the segments.
* **By asking** (`contains_of_mem_candidates`): so is every candidate, and `probe` finds candidates
  only.
* **By memory** (`Deducer.Sound`): a remembered root contains the path that it is remembered for.
  `deduce_sound` is the step that keeps this.
-/

namespace Relock

/-! ## By convention -/

namespace Convention

/-- Going through a mark stops at a beginning of the segments. -/
theorem throughMark?_eq_append {parts front : List (List Char)}
    (h : throughMark? parts = some front) : ∃ back, parts = front ++ back ∧ front ≠ [] := by
  induction parts generalizing front with
  | nil => simp [throughMark?] at h
  | cons part parts ih =>
      simp only [throughMark?] at h
      split at h
      · cases h
        exact ⟨parts, rfl, by simp⟩
      · obtain ⟨rest, hrest, rfl⟩ := Option.map_eq_some_iff.mp h
        obtain ⟨back, rfl, _⟩ := ih hrest
        exact ⟨back, rfl, by simp⟩

/-- The first segments are a beginning of the segments. -/
theorem firstSegments?_eq_append {n : Nat} {parts front : List (List Char)} (hn : 0 < n)
    (h : firstSegments? n parts = some front) : ∃ back, parts = front ++ back ∧ front ≠ [] := by
  simp only [firstSegments?] at h
  split at h
  · next hfront =>
    cases h
    refine ⟨parts.drop n, (List.take_append_drop n parts).symm, ?_⟩
    intro hnil
    rw [hnil, List.length_nil] at hfront
    omega
  · exact absurd h (by simp)

/-- Whatever a host's habits are, they take some first segments. -/
theorem firstSegments?_of_byHost? {parts front : List (List Char)} (h : byHost? parts = some front) :
    ∃ n, 0 < n ∧ firstSegments? n parts = some front := by
  cases parts with
  | nil => simp [byHost?] at h
  | cons host rest =>
      simp only [byHost?] at h
      split at h
      · exact ⟨3, by decide, h⟩
      · split at h
        · exact ⟨3, by decide, h⟩
        · split at h
          · cases rest with
            | nil => exact absurd h (by simp)
            | cons second rest =>
                simp only at h
                split at h
                · exact ⟨2, by decide, h⟩
                · split at h
                  · exact ⟨3, by decide, h⟩
                  · exact absurd h (by simp)
          · exact absurd h (by simp)

/-- A host's habits give a beginning of the segments. -/
theorem byHost?_eq_append {parts front : List (List Char)} (h : byHost? parts = some front) :
    ∃ back, parts = front ++ back ∧ front ≠ [] := by
  obtain ⟨n, hn, hfirst⟩ := firstSegments?_of_byHost? h
  exact firstSegments?_eq_append hn hfirst

/-- A root by convention contains its path. -/
theorem contains_of_root? {path : String} {root : ProjectRoot} (h : root? path = some root) :
    root.contains (trimSlashes path) = true := by
  unfold root? at h
  obtain ⟨front, hfront, rfl⟩ := Option.map_eq_some_iff.mp h
  have hsplit : ∃ back, segments (trimSlashes path).toList = front ++ back ∧ front ≠ [] := by
    rcases Option.or_eq_some_iff.mp hfront with hmark | ⟨_, hhost⟩
    · exact throughMark?_eq_append hmark
    · exact byHost?_eq_append hhost
  obtain ⟨back, hsegments, hne⟩ := hsplit
  exact ProjectRoot.contains_of_segments hsegments hne

end Convention

namespace Deducer

variable {σ : Type} {provider : Provider σ}

/-! ## By asking -/

/-- Every candidate contains its path. -/
theorem contains_of_mem_candidates {path : String} {root : ProjectRoot}
    (h : root ∈ candidates path) : root.contains path = true := by
  obtain ⟨n, hn, rfl⟩ := List.mem_map.mp h
  -- a candidate has at least two of the segments, so it is not empty
  have hlow : 2 ≤ n := (List.mem_range'_1.mp hn).1
  have hlen : n < 2 + ((segments path.toList).length - 1) := (List.mem_range'_1.mp hn).2
  refine ProjectRoot.contains_of_segments
    (List.take_append_drop n (segments path.toList)).symm ?_
  intro hnil
  rcases List.take_eq_nil_iff.mp hnil with hzero | hempty
  · omega
  · rw [hempty, List.length_nil] at hlen
    omega

/-- Asking finds one of the candidates. -/
theorem mem_of_probe {candidates : List ProjectRoot} {root : ProjectRoot} {s : Session σ}
    (h : (probe provider candidates s).1 = .ok (some root)) : root ∈ candidates := by
  induction candidates generalizing s with
  | nil => simp [probe] at h
  | cons candidate rest ih =>
      simp only [probe] at h
      split at h
      · simp only [Except.ok.injEq, Option.some.injEq] at h
        exact h ▸ List.mem_cons_self
      · exact List.mem_cons_of_mem _ (ih h)
      · exact absurd h (by simp)

/-- A search that finds a root finds one that contains the path. -/
theorem contains_of_search {path : String} {root : ProjectRoot} {s : Session σ}
    (h : (search provider (trimSlashes path) s).1 = .ok (some root)) :
    root.contains (trimSlashes path) = true := by
  unfold search at h
  split at h
  · next hroot =>
    have hcontains := Convention.contains_of_root? hroot
    rw [trimSlashes_trimSlashes] at hcontains
    simp only [Except.ok.injEq, Option.some.injEq] at h
    exact h ▸ hcontains
  · exact contains_of_mem_candidates (mem_of_probe h)

/-! ## By memory -/

/-- A deducer is sound if every root it remembers contains the path it is remembered for. -/
def Sound (d : Deducer) : Prop :=
  ∀ path root, d.answers.lookup path = some (some root) → root.contains path = true

theorem sound_empty : empty.Sound := by
  intro path root h
  simp [empty] at h

/-- Remembering an answer keeps a deducer sound if the root contains the path. -/
theorem Sound.remember {d : Deducer} (hd : d.Sound) {path : String} {root? : Option ProjectRoot}
    (h : ∀ root ∈ root?, root.contains path = true) : (d.remember path root?).Sound := by
  intro asked root hlookup
  simp only [Deducer.remember, List.lookup_cons] at hlookup
  split at hlookup
  · next heq =>
    have hpath : asked = path := by simpa using heq
    simp only [Option.some.injEq] at hlookup
    exact hpath ▸ h root hlookup
  · exact hd asked root hlookup

theorem Sound.discover {d : Deducer} (hd : d.Sound) {path : String} {root : ProjectRoot}
    (h : root.contains path = true) : (d.discover path root).Sound :=
  hd.remember fun _ hfound => Option.mem_some.mp hfound ▸ h

/-- A path that was answered before is answered likewise. -/
theorem deduce_of_answered {d : Deducer} {path : String} {root? : Option ProjectRoot}
    (h : d.answers.lookup (trimSlashes path) = some root?) (s : Session σ) :
    d.deduce provider path s = (answer (trimSlashes path) root?, d, s) := by
  simp only [deduce, h]

/-- A new path in a known root gets the first such root. -/
theorem deduce_of_covered {d : Deducer} {path : String} {root : ProjectRoot}
    (h : d.answers.lookup (trimSlashes path) = none)
    (hroot : d.roots.find? (·.contains (trimSlashes path)) = some root) (s : Session σ) :
    d.deduce provider path s =
      (.ok root, d.remember (trimSlashes path) (some root), s) := by
  simp only [deduce, h, hroot]

/-- A new path outside the known roots is looked for. -/
theorem deduce_of_new {d : Deducer} {path : String}
    (h : d.answers.lookup (trimSlashes path) = none)
    (hroot : d.roots.find? (·.contains (trimSlashes path)) = none) (s : Session σ) :
    d.deduce provider path s = d.find provider (trimSlashes path) s := by
  simp only [deduce, h, hroot]

/-- A deduction gives a root that contains the path, and leaves the deducer sound. -/
theorem deduce_sound (provider : Provider σ) {d : Deducer} (hd : d.Sound) (path : String)
    (s : Session σ) :
    (∀ root, (d.deduce provider path s).1 = .ok root →
      root.contains (trimSlashes path) = true) ∧ (d.deduce provider path s).2.1.Sound := by
  -- an answer is remembered, is a root found before, or comes from a new search
  cases hanswer : d.answers.lookup (trimSlashes path) with
  | some root? =>
      rw [deduce_of_answered hanswer]
      refine ⟨fun root h => ?_, hd⟩
      cases root? with
      | none => exact absurd h (by simp [answer])
      | some _ =>
          simp only [answer, Except.ok.injEq] at h
          exact h ▸ hd _ _ hanswer
  | none =>
      cases hroots : d.roots.find? (·.contains (trimSlashes path)) with
      | some _ =>
          rw [deduce_of_covered hanswer hroots]
          have hcontains := List.find?_some hroots
          refine ⟨fun root h => ?_, hd.remember fun root h => Option.mem_some.mp h ▸ hcontains⟩
          simp only [Except.ok.injEq] at h
          exact h ▸ hcontains
      | none =>
          rw [deduce_of_new hanswer hroots]
          unfold find
          split
          · next heq =>
            have hcontains := contains_of_search (congrArg Prod.fst heq)
            refine ⟨fun root h => ?_, hd.discover hcontains⟩
            simp only [Except.ok.injEq] at h
            exact h ▸ hcontains
          · exact ⟨fun root h => absurd h (by simp), hd.remember (by simp)⟩
          · exact ⟨fun root h => absurd h (by simp), hd⟩

end Deducer

end Relock
