import Relock.Proofs.Root.Nesting

/-!
# Paths without a root

A provider may deny that a repository lives at a root, and it may fail to say. Where it does both by
a fixed function, a path alone tells whether it has a root, and if not, why:

* `Deducer.searched` is what a search for the root of a path gives at any time (`search_fst`), and
  `Deducer.whyRootless?` why it gives none.
* **the step** (`Grounded.deduce`): what a deducer remembers comes from such searches, for the path
  itself or for another one that it was asked about. So whenever a path gets no root, the reason is
  the same.
* **a root all the same** (`isHostOf_of_rootless`): a path without a root can get one that was found
  for another path, but only a bare host.
-/

namespace Relock.Deducer

variable {σ : Type} {provider : Provider σ} {existence : ProjectRoot → Except SourceError Bool}

/-! ## Searches -/

/-- What a search for the root of a path gives. -/
def searched (existence : ProjectRoot → Except SourceError Bool) (path : String) :
    Except ResolveError (Option ProjectRoot) :=
  match Convention.root? path with
  | some root => .ok (some root)
  | none => ((candidates path).find? (endsAt existence)).elim (.ok none) (verdict existence)

/-- Why a search gives no root for a path; none if it gives one. -/
def whyRootless? (existence : ProjectRoot → Except SourceError Bool) (path : String) :
    Option ResolveError :=
  match searched existence path with
  | .ok (some _) => none
  | .ok none => some (.unresolvable path)
  | .error error => some error

/-- A search gives the same at all times. -/
theorem search_fst (h : provider.AnswersExistence existence) (path : String) (s : Session σ) :
    (search provider path s).1 = searched existence path := by
  unfold search searched
  cases Convention.root? path with
  | some root => rfl
  | none => exact probe_fst h _ s

/-! ## The step -/

/-- What is remembered comes from searches for some given paths: every root was found for one of
them, and no root was found for a path that is remembered to have none. -/
structure Grounded (existence : ProjectRoot → Except SourceError Bool) (given : List String)
    (d : Deducer) : Prop where
  roots : ∀ root ∈ d.roots, ∃ asked ∈ given, searched existence asked = .ok (some root)
  found : ∀ path root, d.answers.lookup path = some (some root) → root ∈ d.roots
  rootless : ∀ path, d.answers.lookup path = some none →
    whyRootless? existence path = some (.unresolvable path)

theorem grounded_empty (given : List String) : empty.Grounded existence given where
  roots root h := absurd h (by simp [empty])
  found path root h := absurd h (by simp [empty])
  rootless path h := absurd h (by simp [empty])

namespace Grounded

variable {given : List String} {d : Deducer}

/-- A root that is known may be remembered for one more path. -/
theorem remember_some (h : d.Grounded existence given) (path : String) {root : ProjectRoot}
    (hroot : root ∈ d.roots) : (d.remember path (some root)).Grounded existence given where
  roots := h.roots
  found other found hlookup := by
    rw [lookup_remember] at hlookup
    split at hlookup
    · rw [Option.some.injEq, Option.some.injEq] at hlookup
      exact hlookup ▸ hroot
    · exact h.found other found hlookup
  rootless other hlookup := by
    rw [lookup_remember] at hlookup
    split at hlookup
    · exact absurd hlookup (by simp)
    · exact h.rootless other hlookup

theorem remember_none (h : d.Grounded existence given) {path : String}
    (hwhy : whyRootless? existence path = some (.unresolvable path)) :
    (d.remember path none).Grounded existence given where
  roots := h.roots
  found other found hlookup := by
    rw [lookup_remember] at hlookup
    split at hlookup
    · exact absurd hlookup (by simp)
    · exact h.found other found hlookup
  rootless other hlookup := by
    rw [lookup_remember] at hlookup
    split at hlookup
    · next hsame =>
      rw [hsame]
      exact hwhy
    · exact h.rootless other hlookup

/-- A root that was found for a given path may be added. -/
theorem concat (h : d.Grounded existence given) {asked : String} (hgiven : asked ∈ given)
    {root : ProjectRoot} (hasked : searched existence asked = .ok (some root)) :
    Grounded existence given { d with roots := d.roots ++ [root] } where
  roots other hother := by
    rcases List.mem_append.mp hother with hold | hnew
    · exact h.roots other hold
    · rw [List.mem_singleton.mp hnew]
      exact ⟨asked, hgiven, hasked⟩
  found path found hlookup := List.mem_append_left _ (h.found path found hlookup)
  rootless := h.rootless

/-- A deducer that is asked about a given path stays grounded. The root that it gives is one that
it knows afterwards; if it gives none, the path has none. -/
theorem deduce (h : provider.AnswersExistence existence) (hd : d.Grounded existence given)
    {path : String} (hgiven : trimSlashes path ∈ given) (s : Session σ) :
    (d.deduce provider path s).2.1.Grounded existence given ∧
      match (d.deduce provider path s).1 with
      | .ok root => root ∈ (d.deduce provider path s).2.1.roots
      | .error error => whyRootless? existence (trimSlashes path) = some error := by
  cases hanswer : d.answers.lookup (trimSlashes path) with
  | some root? =>
      rw [deduce_of_answered hanswer]
      cases root? with
      | some root => exact ⟨hd, hd.found _ root hanswer⟩
      | none => exact ⟨hd, hd.rootless _ hanswer⟩
  | none =>
      cases hroots : d.roots.find? (·.contains (trimSlashes path)) with
      | some root =>
          have hroot := List.mem_of_find?_eq_some hroots
          rw [deduce_of_covered hanswer hroots]
          exact ⟨hd.remember_some _ hroot, hroot⟩
      | none =>
          rw [deduce_of_new hanswer hroots]
          have hsearch := search_fst h (trimSlashes path) s
          unfold find
          rcases hresult : search provider (trimSlashes path) s with ⟨error | _ | root, s'⟩
          all_goals
            rw [hresult] at hsearch
            dsimp only at hsearch ⊢
          · -- the provider failed, so nothing is remembered
            refine ⟨hd, ?_⟩
            rw [whyRootless?, ← hsearch]
          · have hwhy : whyRootless? existence (trimSlashes path) =
                some (.unresolvable (trimSlashes path)) := by
              rw [whyRootless?, ← hsearch]
            exact ⟨hd.remember_none hwhy, hwhy⟩
          · have hnew : root ∈ d.roots ++ [root] := List.mem_append_right _ List.mem_cons_self
            exact ⟨(hd.concat hgiven hsearch.symm).remember_some _ hnew, hnew⟩

end Grounded

/-! ## Bare hosts -/

/-- The root is but the first segment of a path whose second segment is empty. -/
def IsHostOf (root : ProjectRoot) (path : String) : Prop :=
  ∃ back, segments path.toList = root.text.toList :: [] :: back

/-- A root is found by convention, or as the candidate at which the questions end. -/
theorem eq_or_find?_of_searched {path : String} {root : ProjectRoot}
    (h : searched existence path = .ok (some root)) :
    Convention.root? path = some root ∨
      Convention.root? path = none ∧ (candidates path).find? (endsAt existence) = some root ∧
        verdict existence root = .ok (some root) := by
  unfold searched at h
  cases hconvention : Convention.root? path with
  | some own =>
      rw [hconvention] at h
      exact .inl (by simpa using h)
  | none =>
      rw [hconvention] at h
      cases hend : (candidates path).find? (endsAt existence) with
      | none =>
          rw [hend] at h
          exact absurd h (by simp)
      | some last =>
          rw [hend] at h
          change verdict existence last = .ok (some root) at h
          -- the probe ends at the first candidate that is not denied
          have hlast : last = root := by
            unfold verdict at h
            split at h
            · simpa using h
            · exact absurd h (by simp)
          subst hlast
          exact .inr ⟨rfl, rfl, h⟩

theorem root?_eq_none_of_whyRootless? {path : String} {error : ResolveError}
    (h : whyRootless? existence path = some error) : Convention.root? path = none := by
  cases hroot : Convention.root? path with
  | none => rfl
  | some own =>
      rw [whyRootless?, searched, hroot] at h
      exact absurd h (by simp)

/-- A root that was found for another path and contains a path without a root is a bare host. -/
theorem isHostOf_of_rootless {root : ProjectRoot} {asked path : String} {error : ResolveError}
    (hasked : searched existence asked = .ok (some root))
    (hpath : root.contains (trimSlashes path) = true)
    (hwhy : whyRootless? existence (trimSlashes path) = some error) : IsHostOf root asked := by
  have hnone := root?_eq_none_of_whyRootless? hwhy
  rcases eq_or_find?_of_searched hasked with hconvention | ⟨-, hend, hverdict⟩
  · -- a path in a root by convention has a root by convention
    obtain ⟨below, hbelow, -⟩ := Convention.exists_root?_of_contains hconvention hpath
    rw [Convention.root?_trimSlashes, hbelow] at hnone
    exact absurd hnone (by simp)
  · by_cases hslash : '/' ∈ root.text.toList
    · -- the questions about the path end at the same root
      have hfound := find?_candidates_eq hend hslash hpath
      have hsearched : searched existence (trimSlashes path) = .ok (some root) := by
        rw [searched, hnone, hfound]
        exact hverdict
      rw [whyRootless?, hsearched] at hwhy
      exact absurd hwhy (by simp)
    · exact segments_of_mem_candidates (List.mem_of_find?_eq_some hend) hslash

end Relock.Deducer
