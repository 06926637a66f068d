import Mathlib.Data.List.Induction
import Relock.Proofs.Root.Convention
import Relock.Proofs.Source.Steady

/-!
# What a deducer remembers

A deducer that is asked about many paths answers from what it has found, and that need not be what
a path would get by itself. With a provider that tells existence by a fixed function the difference
can be told exactly.

* `Deducer.ownRoot?` is the root of a path by itself, and `Deducer.ruling?` what a deducer says of a
  path that is new to it: the first root found so far that contains it, and else its own.
* **the step** (`deduce_fst`, `lookup_deduce`, `roots_deduce`): a path gets the ruling when it comes up
  first, and again whenever it comes up later; the only roots found are own roots of paths.
* **the run** (`lookup_afterAll`, `exists_of_mem_roots`): the same for all paths of a list.
* **shadows** (`ownRoot?_eq_or_shadows`): a root found for another path that stands in for a path's
  own one lies above a root that the path has by convention. Of roots found for paths whose second
  segment is empty nothing is said.

The last section puts these together: what a shared deducer answers for a path, and when a fresh one
answers otherwise.
-/

namespace Relock.Deducer

section

variable {σ : Type} {provider : Provider σ} {known : ProjectRoot → Bool}

/-! ## Paths by themselves -/

/-- The root of a path that nothing was found for before. -/
def ownRoot? (known : ProjectRoot → Bool) (path : String) : Option ProjectRoot :=
  (Convention.root? path).or ((candidates path).find? known)

/-- The root that a deducer gives to a path which is new to it. -/
def ruling? (known : ProjectRoot → Bool) (d : Deducer) (path : String) : Option ProjectRoot :=
  (d.roots.find? (·.contains path)).or (ownRoot? known path)

theorem search_eq (h : provider.TellsExistence known) (path : String) (s : Session σ) :
    (search provider path s).1 = .ok (ownRoot? known path) := by
  unfold search ownRoot?
  cases Convention.root? path with
  | some root => rfl
  | none => exact probe_eq h _ s

/-! ## The step -/

theorem lookup_remember (d : Deducer) (path other : String) (root? : Option ProjectRoot) :
    (d.remember path root?).answers.lookup other =
      if other = path then some root? else d.answers.lookup other := by
  simp only [remember, List.lookup_cons]
  by_cases hsame : other = path
  · simp [hsame]
  · have hne : (other == path) = false := by simpa using hsame
    rw [hne, if_neg hsame]

/-- What is found for a path that no root contains is its own root, and is remembered as such. -/
theorem find_eq (h : provider.TellsExistence known) (d : Deducer) (path : String) (s : Session σ) :
    (d.find provider path s).1 = answer path (ownRoot? known path) ∧
      (d.find provider path s).2.1 =
        (ownRoot? known path).elim (d.remember path none) (d.discover path) := by
  have hsearch := search_eq h path s
  unfold find
  rcases hs : search provider path s with ⟨result, s'⟩
  rw [hs] at hsearch
  dsimp only at hsearch
  subst hsearch
  cases ownRoot? known path with
  | none => exact ⟨rfl, rfl⟩
  | some root => exact ⟨rfl, rfl⟩

/-- A path gets what it got before, and else the ruling. -/
theorem deduce_fst (h : provider.TellsExistence known) (d : Deducer) (path : String)
    (s : Session σ) :
    (d.deduce provider path s).1 = answer (trimSlashes path)
      ((d.answers.lookup (trimSlashes path)).getD (d.ruling? known (trimSlashes path))) := by
  cases hanswer : d.answers.lookup (trimSlashes path) with
  | some root? => rw [deduce_of_answered hanswer, Option.getD_some]
  | none =>
      rw [Option.getD_none]
      cases hroot : d.roots.find? (·.contains (trimSlashes path)) with
      | some root =>
          rw [deduce_of_covered hanswer hroot, ruling?, hroot, Option.some_or]
          rfl
      | none =>
          rw [deduce_of_new hanswer hroot, ruling?, hroot, Option.none_or]
          exact (find_eq h d _ s).1

/-- The answer is remembered for the path, and nothing else changes of what is remembered. -/
theorem lookup_deduce (h : provider.TellsExistence known) (d : Deducer) (path other : String)
    (s : Session σ) :
    (d.deduce provider path s).2.1.answers.lookup other =
      if other = trimSlashes path then
        some ((d.answers.lookup (trimSlashes path)).getD (d.ruling? known (trimSlashes path)))
      else d.answers.lookup other := by
  cases hanswer : d.answers.lookup (trimSlashes path) with
  | some root? =>
      rw [deduce_of_answered hanswer, Option.getD_some]
      split
      · next hsame => rw [hsame, hanswer]
      · rfl
  | none =>
      rw [Option.getD_none]
      cases hroot : d.roots.find? (·.contains (trimSlashes path)) with
      | some root =>
          rw [deduce_of_covered hanswer hroot, ruling?, hroot, Option.some_or]
          exact lookup_remember _ _ _ _
      | none =>
          rw [deduce_of_new hanswer hroot, (find_eq h d _ s).2, ruling?, hroot, Option.none_or]
          cases ownRoot? known (trimSlashes path) with
          | none => exact lookup_remember _ _ _ _
          | some root => exact lookup_remember _ _ _ (some root)

/-- At most the path's own root is added to the roots. -/
theorem roots_deduce (h : provider.TellsExistence known) (d : Deducer) (path : String)
    (s : Session σ) :
    (d.deduce provider path s).2.1.roots = d.roots ∨
      ∃ root, ownRoot? known (trimSlashes path) = some root ∧
        (d.deduce provider path s).2.1.roots = d.roots ++ [root] := by
  cases hanswer : d.answers.lookup (trimSlashes path) with
  | some root? =>
      left
      rw [deduce_of_answered hanswer]
  | none =>
      cases hroot : d.roots.find? (·.contains (trimSlashes path)) with
      | some root =>
          left
          rw [deduce_of_covered hanswer hroot]
          rfl
      | none =>
          rw [deduce_of_new hanswer hroot, (find_eq h d _ s).2]
          cases ownRoot? known (trimSlashes path) with
          | none => exact .inl rfl
          | some root => exact .inr ⟨root, rfl, rfl⟩

/-! ## The run -/

/-- A deducer, and all that was done, after it was asked about some paths. -/
def afterAll (provider : Provider σ) (paths : List String) (s : Session σ) : Deducer × Session σ :=
  paths.foldl (fun run path => (run.1.deduce provider path run.2).2) (empty, s)

theorem afterAll_concat (paths : List String) (path : String) (s : Session σ) :
    afterAll provider (paths ++ [path]) s =
      ((afterAll provider paths s).1.deduce provider path (afterAll provider paths s).2).2 :=
  List.foldl_concat ..

/-- The paths before the first one that is `path` but for slashes at its ends. -/
def beforeFirst (path : String) (paths : List String) : List String :=
  paths.takeWhile fun other => trimSlashes other ≠ trimSlashes path

theorem beforeFirst_eq_self {path : String} {paths : List String}
    (h : trimSlashes path ∉ paths.map trimSlashes) : beforeFirst path paths = paths := by
  unfold beforeFirst
  rw [List.takeWhile_eq_self_iff]
  intro other hother
  have hne : trimSlashes other ≠ trimSlashes path := fun heq =>
    h (heq ▸ List.mem_map_of_mem hother)
  simpa using hne

theorem beforeFirst_append {path : String} {paths : List String}
    (h : trimSlashes path ∈ paths.map trimSlashes) (others : List String) :
    beforeFirst path (paths ++ others) = beforeFirst path paths := by
  unfold beforeFirst
  obtain ⟨same, hmem, hsame⟩ := List.mem_map.mp h
  rw [List.takeWhile_append, if_neg]
  intro hlength
  have hall := List.takeWhile_eq_self_iff.mp
    ((List.takeWhile_prefix _).eq_of_length hlength) same hmem
  simp [hsame] at hall

theorem beforeFirst_concat_of_eq {path last : String} {paths : List String}
    (h : trimSlashes path ∉ paths.map trimSlashes) (hlast : trimSlashes last = trimSlashes path) :
    beforeFirst path (paths ++ [last]) = paths := by
  have hself := beforeFirst_eq_self h
  unfold beforeFirst at hself ⊢
  rw [List.takeWhile_append, hself, if_pos rfl]
  simp [hlast]

/-- A path that came up has the ruling of the moment when it came up first; no other path has an
answer. -/
theorem lookup_afterAll (h : provider.TellsExistence known) (paths : List String) (path : String)
    (s : Session σ) :
    (afterAll provider paths s).1.answers.lookup (trimSlashes path) =
      if trimSlashes path ∈ paths.map trimSlashes then
        some ((afterAll provider (beforeFirst path paths) s).1.ruling? known (trimSlashes path))
      else none := by
  induction paths using List.reverseRecOn with
  | nil => rfl
  | append_singleton paths last ih =>
      rw [afterAll_concat, lookup_deduce h, List.map_append, List.map_singleton]
      by_cases hlast : trimSlashes path = trimSlashes last
      · rw [if_pos hlast, if_pos (by simp [hlast]), ← hlast, ih]
        by_cases hmem : trimSlashes path ∈ paths.map trimSlashes
        · -- it came up before, and is answered as it was then
          rw [if_pos hmem, beforeFirst_append hmem, Option.getD_some]
        · rw [if_neg hmem, beforeFirst_concat_of_eq hmem hlast.symm, Option.getD_none]
      · rw [if_neg hlast, ih]
        by_cases hmem : trimSlashes path ∈ paths.map trimSlashes
        · rw [if_pos hmem, if_pos (List.mem_append_left _ hmem), beforeFirst_append hmem]
        · rw [if_neg hmem, if_neg (by simpa [hlast] using hmem)]

/-- Every root that was found is the own root of one of the paths. -/
theorem exists_of_mem_roots (h : provider.TellsExistence known) {paths : List String}
    {s : Session σ} {root : ProjectRoot} (hroot : root ∈ (afterAll provider paths s).1.roots) :
    ∃ path ∈ paths, ownRoot? known (trimSlashes path) = some root := by
  induction paths using List.reverseRecOn with
  | nil => exact absurd hroot (by simp [afterAll, empty])
  | append_singleton paths last ih =>
      rw [afterAll_concat] at hroot
      have old : root ∈ (afterAll provider paths s).1.roots →
          ∃ path ∈ paths ++ [last], ownRoot? known (trimSlashes path) = some root := by
        intro hold
        obtain ⟨path, hpath, hown⟩ := ih hold
        exact ⟨path, List.mem_append_left _ hpath, hown⟩
      rcases roots_deduce h (afterAll provider paths s).1 last (afterAll provider paths s).2 with
        hsame | ⟨new, hown, hnew⟩
      · rw [hsame] at hroot
        exact old hroot
      · rw [hnew] at hroot
        rcases List.mem_append.mp hroot with hold | hlast
        · exact old hold
        · rw [List.mem_singleton.mp hlast]
          exact ⟨last, by simp, hown⟩

/-! ## Shadows -/

/-- A root stands in for the one that a path in it has by convention, which lies below it. -/
inductive Shadows (root : ProjectRoot) (path : String) : Prop
  | nested (own : ProjectRoot) (hown : Convention.root? path = some own) (hne : own ≠ root)
      (hcontains : root.contains own.text = true)

/-- Paths that begin with the same segments have the same first candidates. -/
theorem candidates_of_isPrefix {front : List (List Char)} {path : String}
    (h : front <+: segments path.toList) (hlength : 2 ≤ front.length) :
    ∃ others, candidates path =
      (List.range' 2 (front.length - 1)).map (fun n => .ofChars (joinSegments (front.take n))) ++
        others := by
  obtain ⟨back, hback⟩ := h
  have hrange : List.range' 2 (front.length + back.length - 1) =
      List.range' 2 (front.length - 1) ++ List.range' (front.length + 1) back.length := by
    have hstart : 2 + 1 * (front.length - 1) = front.length + 1 := by omega
    rw [← hstart, List.range'_append]
    congr 1
    omega
  refine ⟨(List.range' (front.length + 1) back.length).map fun n =>
    .ofChars (joinSegments ((front ++ back).take n)), ?_⟩
  unfold candidates
  dsimp only
  rw [← hback, List.length_append, hrange, List.map_append]
  congr 1
  apply List.map_congr_left
  intro n hn
  have hle : n ≤ front.length := by
    have := (List.mem_range'_1.mp hn).2
    omega
  rw [List.take_append_of_le_length hle]

/-- A root that was asked about and that goes on after a slash is found for all paths in it which
are asked about. -/
theorem find?_candidates_eq {root : ProjectRoot} {asked path : String}
    (hfound : (candidates asked).find? known = some root) (hslash : '/' ∈ root.text.toList)
    (hpath : root.contains path = true) : (candidates path).find? known = some root := by
  have hasked := contains_of_mem_candidates (List.mem_of_find?_eq_some hfound)
  have hlength : 2 ≤ (segments root.text.toList).length := by
    -- a single segment would hold the slash
    rcases hsegments : segments root.text.toList with _ | ⟨first, _ | ⟨second, others⟩⟩
    · exact absurd hsegments (segments_ne_nil _)
    · have hjoin := joinSegments_segments root.text.toList
      rw [hsegments] at hjoin
      have hfirst : root.text.toList = first := by simpa [joinSegments] using hjoin.symm
      have hno := slash_not_mem_of_mem_segments (hsegments ▸ List.mem_singleton_self first)
      exact absurd (hfirst ▸ hslash) hno
    · simp
  obtain ⟨_, hcandidates⟩ :=
    candidates_of_isPrefix (ProjectRoot.contains_iff_isPrefix.mp hasked) hlength
  obtain ⟨_, hcandidates'⟩ :=
    candidates_of_isPrefix (ProjectRoot.contains_iff_isPrefix.mp hpath) hlength
  rw [hcandidates, List.find?_append] at hfound
  rw [hcandidates', List.find?_append]
  -- The root is the last of the candidates that both have, so the search ends among them.
  rcases Option.or_eq_some_iff.mp hfound with hcommon | ⟨hnone, hlater⟩
  · rw [hcommon, Option.some_or]
  · have hself : ProjectRoot.ofChars (joinSegments
        ((segments root.text.toList).take (segments root.text.toList).length)) = root := by
      rw [List.take_length, joinSegments_segments]
      exact ProjectRoot.ofString_text root
    have hmem : (segments root.text.toList).length ∈
        List.range' 2 ((segments root.text.toList).length - 1) := by
      rw [List.mem_range'_1]
      omega
    have hno := List.find?_eq_none.mp hnone root (List.mem_map.mpr ⟨_, hmem, hself⟩)
    exact absurd (List.find?_some hlater) hno

/-- Without slashes at their end some segments are but the first of them only if the second one is
empty. -/
theorem eq_nil_of_dropTail_joinSegments {first second : List Char} {others : List (List Char)}
    (hslash : '/' ∉ second)
    (h : Text.dropTail isSlash (joinSegments (first :: second :: others)) = first) :
    second = [] := by
  have hjoin : joinSegments (first :: second :: others) =
      first ++ '/' :: joinSegments (second :: others) := by
    simp [joinSegments]
  -- what is dropped are the slash and all that comes after it
  have hdropped := Text.dropTail_append_reverse_takeWhile isSlash
    (joinSegments (first :: second :: others))
  rw [h, hjoin] at hdropped
  have hslashes := List.append_cancel_left hdropped
  rw [List.eq_nil_iff_forall_not_mem]
  intro c hc
  obtain ⟨rest, hrest, -⟩ := @ProjectRoot.joinSegments_append [second] others (by simp)
  have hmem : c ∈ '/' :: joinSegments (second :: others) := by
    apply List.mem_cons_of_mem
    show c ∈ joinSegments ([second] ++ others)
    rw [hrest]
    simp [joinSegments, hc]
  rw [← hslashes, List.mem_reverse] at hmem
  have hslashed : c = '/' := by simpa [isSlash] using List.mem_takeWhile_imp hmem
  exact hslash (hslashed ▸ hc)

/-- A candidate of one segment comes from an empty second segment. -/
theorem segments_of_mem_candidates {root : ProjectRoot} {path : String}
    (h : root ∈ candidates path) (hslash : '/' ∉ root.text.toList) :
    ∃ back, segments path.toList = root.text.toList :: [] :: back := by
  have hprefix := ProjectRoot.contains_iff_isPrefix.mp (contains_of_mem_candidates h)
  have hroot : segments root.text.toList = [root.text.toList] := List.splitOn_eq_singleton hslash
  obtain ⟨n, hn, hcandidate⟩ := List.mem_map.mp h
  obtain ⟨hlow, hhigh⟩ := List.mem_range'_1.mp hn
  rw [hroot] at hprefix
  rcases hsegments : segments path.toList with _ | ⟨first, _ | ⟨second, others⟩⟩
  · exact absurd hsegments (segments_ne_nil _)
  · rw [hsegments] at hhigh
    simp only [List.length_cons, List.length_nil] at hhigh
    omega
  · -- the candidate has two segments but is only the first one: the slash at its end was dropped
    obtain ⟨m, rfl⟩ : ∃ m, n = m + 2 := ⟨n - 2, by omega⟩
    rw [hsegments] at hprefix hcandidate
    change ProjectRoot.ofChars (joinSegments (first :: second :: others.take m)) = root at hcandidate
    have hfirst : root.text.toList = first := (List.cons_prefix_cons.mp hprefix).1
    have htext : Text.dropTail isSlash (joinSegments (first :: second :: others.take m)) =
        root.text.toList := by
      rw [← hcandidate]
      simp [ProjectRoot.ofChars]
    have hno : '/' ∉ second := by
      apply slash_not_mem_of_mem_segments
      rw [hsegments]
      simp
    have hsecond := eq_nil_of_dropTail_joinSegments hno (htext.trans hfirst)
    exact ⟨others, by rw [hfirst, hsecond]⟩

/-- A root that was found for another path is the own root of a path in it, or shadows it. -/
theorem ownRoot?_eq_or_shadows {root : ProjectRoot} {asked path : String}
    (hasked : ownRoot? known (trimSlashes asked) = some root)
    (hsecond : (segments (trimSlashes asked).toList)[1]? ≠ some [])
    (hpath : root.contains (trimSlashes path) = true) :
    ownRoot? known (trimSlashes path) = some root ∨ Shadows root (trimSlashes path) := by
  -- a root by convention below the other one is the same or shadowed
  have below : ∀ own, Convention.root? (trimSlashes path) = some own →
      root.contains own.text = true → ownRoot? known (trimSlashes path) = some root ∨
        Shadows root (trimSlashes path) := by
    intro own hown hcontains
    by_cases hsame : own = root
    · left
      rw [ownRoot?, hown, Option.some_or, hsame]
    · exact .inr (.nested own hown hsame hcontains)
  have hinner : root.contains (trimSlashes (trimSlashes path)) = true := by
    rwa [trimSlashes_trimSlashes]
  rcases Option.or_eq_some_iff.mp hasked with hconvention | ⟨hnone, hfound⟩
  · obtain ⟨own, hown, hcontains⟩ := Convention.exists_root?_of_contains hconvention hinner
    exact below own hown hcontains
  · have hcandidate := List.mem_of_find?_eq_some hfound
    cases hown : Convention.root? (trimSlashes path) with
    | some own =>
        have hcontains := Convention.contains_of_root? hown
        rw [trimSlashes_trimSlashes] at hcontains
        rcases ProjectRoot.contains_or_contains hpath hcontains with hbelow | habove
        · exact below own hown hbelow
        · -- else the other path would have a root by convention as well
          have hother := ProjectRoot.contains_trans habove (contains_of_mem_candidates hcandidate)
          rw [← trimSlashes_trimSlashes asked] at hother
          obtain ⟨_, hsome, _⟩ := Convention.exists_root?_of_contains hown hother
          rw [hnone] at hsome
          exact absurd hsome (by simp)
    | none =>
        by_cases hslash : '/' ∈ root.text.toList
        · left
          rw [ownRoot?, hown, Option.none_or]
          exact find?_candidates_eq hfound hslash hpath
        · obtain ⟨back, hback⟩ := segments_of_mem_candidates hcandidate hslash
          exact absurd (by rw [hback]; rfl) hsecond

/-! ## Shared and fresh deducers -/

/-- What a deducer answers for a path after it was asked about others; with no others before it, the
deducer is fresh. -/
def answerAfter (provider : Provider σ) (paths : List String) (path : String) (s : Session σ) :
    Except ResolveError ProjectRoot :=
  ((afterAll provider paths s).1.deduce provider path (afterAll provider paths s).2).1

/-- The roots that were found before a path came up first. -/
def rootsBefore (provider : Provider σ) (paths : List String) (path : String) (s : Session σ) :
    List ProjectRoot :=
  (afterAll provider (beforeFirst path paths) s).1.roots

/-- A fresh deducer gives a path its own root. -/
theorem answerAfter_nil (h : provider.TellsExistence known) (path : String) (s : Session σ) :
    answerAfter provider [] path s =
      answer (trimSlashes path) (ownRoot? known (trimSlashes path)) := by
  have hnew : empty.answers.lookup (trimSlashes path) = none := rfl
  have hnone : empty.roots.find? (·.contains (trimSlashes path)) = none := rfl
  show (empty.deduce provider path s).1 = _
  rw [deduce_fst h, hnew, Option.getD_none, ruling?, hnone, Option.none_or]

/-- A deducer gives a path the ruling of the moment when it came up first. -/
theorem answerAfter_eq_ruling (h : provider.TellsExistence known) (paths : List String)
    (path : String) (s : Session σ) :
    answerAfter provider paths path s = answer (trimSlashes path)
      ((afterAll provider (beforeFirst path paths) s).1.ruling? known (trimSlashes path)) := by
  unfold answerAfter
  rw [deduce_fst h, lookup_afterAll h]
  by_cases hmem : trimSlashes path ∈ paths.map trimSlashes
  · rw [if_pos hmem, Option.getD_some]
  · rw [if_neg hmem, Option.getD_none, beforeFirst_eq_self hmem]

/-- A deducer answers for a path by the first root that it had found before the path came up first
and that contains it, and else as a fresh deducer does. Where the two answers differ, the root was
found for an earlier path, and shadows the own one unless the second segment of the earlier path is
empty. -/
theorem answerAfter_eq_or_shadows (h : provider.TellsExistence known) (paths : List String)
    (path : String) (s t : Session σ) :
    answerAfter provider paths path s =
        ((rootsBefore provider paths path s).find? (·.contains (trimSlashes path))).elim
          (answerAfter provider [] path t) .ok ∧
      (answerAfter provider paths path s = answerAfter provider [] path t ∨
        ∃ asked ∈ beforeFirst path paths, ∃ root,
          answerAfter provider [] asked t = .ok root ∧
          answerAfter provider paths path s = .ok root ∧
          ((segments (trimSlashes asked).toList)[1]? ≠ some [] →
            Shadows root (trimSlashes path))) := by
  rw [answerAfter_eq_ruling h, answerAfter_nil h, rootsBefore, ruling?]
  cases hroot : (afterAll provider (beforeFirst path paths) s).1.roots.find?
      (·.contains (trimSlashes path)) with
  | none =>
      rw [Option.none_or, Option.elim_none]
      exact ⟨rfl, .inl rfl⟩
  | some root =>
      rw [Option.some_or, Option.elim_some]
      refine ⟨rfl, ?_⟩
      obtain ⟨asked, hasked, hown⟩ := exists_of_mem_roots h (List.mem_of_find?_eq_some hroot)
      have hcontains := List.find?_some hroot
      by_cases hsame : ownRoot? known (trimSlashes path) = some root
      · left
        rw [hsame]
      · right
        refine ⟨asked, hasked, root, ?_, rfl, fun hsecond => ?_⟩
        · rw [answerAfter_nil h, hown]
          rfl
        · exact (ownRoot?_eq_or_shadows hown hsecond hcontains).resolve_left hsame

end

namespace NestedRepository

def known (root : ProjectRoot) : Bool :=
  root.text = "example.org/a"

def provider : Provider Unit :=
  .fixed "fixed" (fun _ _ => .ok []) fun root => .ok (known root)

end NestedRepository

open NestedRepository in
/-- A marked repository in a root that was found makes a difference. -/
theorem answerAfter_ne_nestedRepository :
    provider.TellsExistence known ∧
      answerAfter provider ["github.com/a/b"] "github.com/a/b/c.git" (.start ()) ≠
        answerAfter provider [] "github.com/a/b/c.git" (.start ()) :=
  ⟨fun _ _ => rfl, by decide +kernel⟩

open NestedRepository in
theorem answerAfter_eq_or_shadows_nestedRepository :
    provider.TellsExistence known ∧
      answerAfter provider ["github.com/a/b", "github.com/a/b"] "github.com/a/b/c.git" (.start ()) =
        .ok (.ofString "github.com/a/b") ∧
      Shadows (.ofString "github.com/a/b") "github.com/a/b/c.git" := by
  have htells : provider.TellsExistence known := fun _ _ => rfl
  have hshared : answerAfter provider ["github.com/a/b", "github.com/a/b"] "github.com/a/b/c.git"
      (.start ()) = .ok (.ofString "github.com/a/b") := by decide +kernel
  have hfresh : answerAfter provider [] "github.com/a/b/c.git" (.start ()) =
      .ok (.ofString "github.com/a/b/c.git") := by decide +kernel
  have htrimmed : trimSlashes "github.com/a/b/c.git" = "github.com/a/b/c.git" := by decide +kernel
  refine ⟨htells, hshared, ?_⟩
  rcases (answerAfter_eq_or_shadows htells ["github.com/a/b", "github.com/a/b"]
    "github.com/a/b/c.git" (.start ()) (.start ())).2 with
    hsame | ⟨asked, hasked, root, -, hroot, hshadows⟩
  · rw [hshared, hfresh] at hsame
    exact absurd hsame (by decide +kernel)
  · obtain rfl : ProjectRoot.ofString "github.com/a/b" = root :=
      Except.ok.inj (hshared.symm.trans hroot)
    have hsecond : ∀ asked ∈ ["github.com/a/b", "github.com/a/b"],
        (segments (trimSlashes asked).toList)[1]? ≠ some [] := by decide +kernel
    rw [htrimmed] at hshadows
    exact hshadows (hsecond asked ((List.takeWhile_prefix _).subset hasked))

end Relock.Deducer
