import Relock.Proofs.Root.Memory

/-!
# Roots are found from the inside out

What a deducer keeps over any calls, whatever its provider answers, and however the answers change
or fail from one call to the next.

* **the step** (`Move`, `move_deduce`): the five ways in which a call can go, each with all that it
  changes and all that it asks. The other facts are read off them.
* **the order** (`Nested`): no root lies in one that was found before it. So of the roots that
  contain a path the first is the innermost (`Nested.longest`).
* **the memory** (`lookup_afterAll_append`): an answer stays, and a call that fails leaves none.

`nested_afterAll` is the run for the order, and `calls_keep` states all of it for any number of
calls.
-/

namespace Relock

/-- A path without slashes at its ends does not begin with one. -/
theorem head?_trimSlashes (path : String) : (trimSlashes path).toList.head? ≠ some '/' := by
  intro h
  rw [trimSlashes, String.toList_ofList] at h
  exact absurd (Text.head?_trimEnds h) (by decide)

/-- Only the empty path is in the root without a text, but for paths that begin with a slash. -/
theorem trimSlashes_eq_empty_of_contains {root : ProjectRoot} {path : String}
    (h : root.contains (trimSlashes path) = true) (htext : root.text = "") :
    trimSlashes path = "" := by
  obtain ⟨rest, hpath, hrest⟩ := ProjectRoot.contains_iff.mp h
  have hrest' : (trimSlashes path).toList = rest := by simpa [htext] using hpath
  rcases hrest with rfl | hslash
  · simpa using hrest'
  · rw [← hrest'] at hslash
    exact absurd hslash (head?_trimSlashes path)

namespace Deducer

section

variable {σ : Type} {provider : Provider σ}

/-! ## The step -/

/-- Nothing is found for the empty path. -/
theorem search_empty (provider : Provider σ) (s : Session σ) :
    search provider "" s = (.ok none, s) := by
  have hnone : Convention.root? "" = none := by decide +kernel
  unfold search
  rw [hnone]
  rfl

theorem text_ne_empty_of_search {path : String} {root : ProjectRoot} {s : Session σ}
    (h : (search provider (trimSlashes path) s).1 = .ok (some root)) : root.text ≠ "" := by
  intro htext
  have hpath := trimSlashes_eq_empty_of_contains (contains_of_search h) htext
  rw [hpath, search_empty] at h
  exact absurd h (by simp)

/-- Only the provider makes a search fail. -/
theorem exists_provider_of_search {path : String} {error : ResolveError} {s : Session σ}
    (h : (search provider path s).1 = .error error) :
    ∃ root message, error = .provider root message := by
  have hprobe : ∀ (roots : List ProjectRoot) (s : Session σ),
      (probe provider roots s).1 = .error error →
        ∃ root message, error = .provider root message := by
    intro roots
    induction roots with
    | nil => intro s h; exact absurd h (by simp [probe])
    | cons candidate rest ih =>
        intro s h
        simp only [probe] at h
        split at h
        · exact absurd h (by simp)
        · exact ih _ h
        · exact ⟨_, _, (Except.error.inj h).symm⟩
  unfold search at h
  split at h
  · exact absurd h (by simp)
  · exact hprobe _ _ h

/-- How a call for a path without slashes at its ends can go, by what it answers and leaves
behind. -/
inductive Move (d : Deducer) (s : Session σ) (path : String) :
    Except ResolveError ProjectRoot → Deducer → Session σ → Prop
  /-- The path was answered before. -/
  | recalled (root? : Option ProjectRoot) (hanswer : d.answers.lookup path = some root?) :
      Move d s path (answer path root?) d s
  /-- The path is new, but in a known root. -/
  | covered (root : ProjectRoot) (hanswer : d.answers.lookup path = none)
      (hroot : d.roots.find? (·.contains path) = some root) :
      Move d s path (.ok root) (d.remember path (some root)) s
  /-- A root was found for the path, which is in no known one. -/
  | found (root : ProjectRoot) (s' : Session σ) (hanswer : d.answers.lookup path = none)
      (houtside : ∀ known ∈ d.roots, known.contains path = false)
      (hcontains : root.contains path = true) (hnamed : root.text ≠ "") :
      Move d s path (.ok root) (d.discover path root) s'
  /-- No root was found for the path, which is in no known one. -/
  | missing (s' : Session σ) (hanswer : d.answers.lookup path = none)
      (houtside : ∀ known ∈ d.roots, known.contains path = false) :
      Move d s path (.error (.unresolvable path)) (d.remember path none) s'
  /-- The provider failed. -/
  | failed (root message : String) (s' : Session σ) (hanswer : d.answers.lookup path = none)
      (houtside : ∀ known ∈ d.roots, known.contains path = false) :
      Move d s path (.error (.provider root message)) d s'

/-- Every call goes in one of these ways. -/
theorem move_deduce (provider : Provider σ) (d : Deducer) (path : String) (s : Session σ) :
    Move d s (trimSlashes path) (d.deduce provider path s).1 (d.deduce provider path s).2.1
      (d.deduce provider path s).2.2 := by
  cases hanswer : d.answers.lookup (trimSlashes path) with
  | some root? =>
      rw [deduce_of_answered hanswer]
      exact .recalled root? hanswer
  | none =>
      cases hroot : d.roots.find? (·.contains (trimSlashes path)) with
      | some root =>
          rw [deduce_of_covered hanswer hroot]
          exact .covered root hanswer hroot
      | none =>
          -- a search is made only where no known root contains the path
          have houtside : ∀ known ∈ d.roots, known.contains (trimSlashes path) = false := by
            simpa using hroot
          rw [deduce_of_new hanswer hroot]
          unfold find
          split
          · next root s' hsearch =>
            have hfirst := congrArg Prod.fst hsearch
            exact .found root (s'.tell _) hanswer houtside (contains_of_search hfirst)
              (text_ne_empty_of_search hfirst)
          · next s' _ => exact .missing s' hanswer houtside
          · next error s' hsearch =>
            obtain ⟨root, message, rfl⟩ := exists_provider_of_search (congrArg Prod.fst hsearch)
            exact .failed root message s' hanswer houtside

namespace Move

variable {d d' : Deducer} {s s' : Session σ} {path : String}
  {result : Except ResolveError ProjectRoot}

/-- A call adds one root at most, and gives that root to its path. -/
theorem roots (h : Move d s path result d' s') :
    d'.roots = d.roots ∨ ∃ root, d'.roots = d.roots ++ [root] ∧ result = .ok root ∧
      root.contains path = true ∧ root.text ≠ "" ∧
      ∀ known ∈ d.roots, known.contains path = false := by
  cases h with
  | recalled | covered | missing | failed => exact .inl rfl
  | found root s' _ houtside hcontains hnamed =>
      exact .inr ⟨root, rfl, rfl, hcontains, hnamed, houtside⟩

/-- What was answered before stays. -/
theorem lookup (h : Move d s path result d' s') {other : String}
    {root? : Option ProjectRoot} (hother : d.answers.lookup other = some root?) :
    d'.answers.lookup other = some root? := by
  have hkept : d.answers.lookup path = none → ∀ new,
      (d.remember path new).answers.lookup other = some root? := by
    intro hnone new
    rw [lookup_remember, if_neg, hother]
    rintro rfl
    rw [hnone] at hother
    exact absurd hother (by simp)
  cases h with
  | recalled | failed => exact hother
  | covered root hanswer => exact hkept hanswer (some root)
  | found root _ hanswer => exact hkept hanswer (some root)
  | missing _ hanswer => exact hkept hanswer none

/-- What a call answers is remembered, unless the provider failed. -/
theorem lookup_self (h : Move d s path result d' s')
    (hfine : ∀ root message, result ≠ .error (.provider root message)) :
    ∃ root?, d'.answers.lookup path = some root? ∧ result = answer path root? := by
  cases h with
  | recalled root? hanswer => exact ⟨root?, hanswer, rfl⟩
  | covered root => exact ⟨some root, by rw [lookup_remember, if_pos rfl], rfl⟩
  | found root => exact ⟨some root, List.lookup_cons_self, rfl⟩
  | missing => exact ⟨none, by rw [lookup_remember, if_pos rfl], rfl⟩
  | failed root message => exact absurd rfl (hfine root message)

/-- Nothing is asked about a path in a known root. -/
theorem session_of_contains (h : Move d s path result d' s') {known : ProjectRoot}
    (hknown : known ∈ d.roots) (hcontains : known.contains path = true) : s' = s := by
  have hinside : ¬ ∀ known ∈ d.roots, known.contains path = false := by
    intro houtside
    rw [houtside known hknown] at hcontains
    exact absurd hcontains (by simp)
  cases h with
  | recalled | covered => rfl
  | found _ _ _ houtside => exact absurd houtside hinside
  | missing _ _ houtside => exact absurd houtside hinside
  | failed _ _ _ _ houtside => exact absurd houtside hinside

/-- A failing provider leaves nothing behind. -/
theorem deducer_of_failed (h : Move d s path result d' s') {root message : String}
    (hresult : result = .error (.provider root message)) : d' = d := by
  cases h with
  | recalled root? => cases root? <;> exact absurd hresult (by simp [answer])
  | covered | found => exact absurd hresult (by simp)
  | missing => exact absurd hresult (by simp)
  | failed => rfl

end Move

/-! ## The order -/

/-- Roots in the order in which they were found: each has a text, and none lies in one before it. -/
structure Nested (roots : List ProjectRoot) : Prop where
  named : ∀ root ∈ roots, root.text ≠ ""
  apart : roots.Pairwise fun earlier later => earlier.contains later.text = false

namespace Nested

variable {roots : List ProjectRoot}

theorem nodup (h : Nested roots) : roots.Nodup := by
  apply h.apart.imp
  rintro earlier later hapart rfl
  rw [ProjectRoot.contains_self] at hapart
  exact absurd hapart (by simp)

/-- A root that was found for a path outside all others may come last. -/
theorem concat (h : Nested roots) {root : ProjectRoot} {path : String} (hnamed : root.text ≠ "")
    (hcontains : root.contains path = true)
    (houtside : ∀ known ∈ roots, known.contains path = false) : Nested (roots ++ [root]) where
  named known hknown := by
    rcases List.mem_append.mp hknown with hold | hnew
    · exact h.named known hold
    · rwa [List.mem_singleton.mp hnew]
  apart := by
    refine List.pairwise_append.mpr ⟨h.apart, List.pairwise_singleton _ _, ?_⟩
    intro known hknown new hnew
    rw [List.mem_singleton.mp hnew]
    -- a root in which the new one lies would contain the path as well
    by_contra hinside
    have hpath := ProjectRoot.contains_trans (by simpa using hinside) hcontains
    rw [houtside known hknown] at hpath
    exact absurd hpath (by simp)

/-- Of the roots that contain a path the first is the longest. -/
theorem longest (h : Nested roots) {root other : ProjectRoot} {path : String}
    (hfirst : roots.find? (·.contains path) = some root) (hother : other ∈ roots)
    (hcontains : other.contains path = true) :
    other = root ∨ other.text.length < root.text.length := by
  obtain ⟨hroot, front, back, rfl, hfront⟩ := List.find?_eq_some_iff_append.mp hfirst
  rcases List.mem_append.mp hother with hbefore | hafter
  · have hnot := hfront other hbefore
    rw [hcontains] at hnot
    exact absurd hnot (by simp)
  rcases List.mem_cons.mp hafter with rfl | hlater
  · exact .inl rfl
  -- a later root does not lie in the first one, so the first one lies in it
  have hapart : root.contains other.text = false :=
    (List.pairwise_cons.mp (List.pairwise_append.mp h.apart).2.1).1 other hlater
  rcases ProjectRoot.contains_or_contains (by simpa using hroot) hcontains with hinside | houter
  · rw [hapart] at hinside
    exact absurd hinside (by simp)
  · right
    obtain ⟨rest, htext, -⟩ := ProjectRoot.contains_iff.mp houter
    have hrest : rest ≠ [] := by
      rintro rfl
      rw [List.append_nil, String.toList_inj] at htext
      rw [← htext, ProjectRoot.contains_self] at hapart
      exact absurd hapart (by simp)
    have hlength := congrArg List.length htext
    rw [List.length_append, String.length_toList, String.length_toList] at hlength
    have hpos := List.length_pos_iff.mpr hrest
    omega

end Nested

/-! ## The run -/

/-- After any calls the roots are nested. -/
theorem nested_afterAll (provider : Provider σ) (paths : List String) (s : Session σ) :
    Nested (afterAll provider paths s).1.roots := by
  induction paths using List.reverseRecOn with
  | nil => exact ⟨by simp [afterAll, empty], by simp [afterAll, empty]⟩
  | append_singleton paths path ih =>
      rw [afterAll_concat]
      rcases (move_deduce provider (afterAll provider paths s).1 path _).roots with
        hsame | ⟨root, hnew, -, hcontains, hnamed, houtside⟩
      · rwa [hsame]
      · rw [hnew]
        exact ih.concat hnamed hcontains houtside

theorem sound_afterAll (provider : Provider σ) (paths : List String) (s : Session σ) :
    (afterAll provider paths s).1.Sound := by
  induction paths using List.reverseRecOn with
  | nil => exact sound_empty
  | append_singleton paths path ih =>
      rw [afterAll_concat]
      exact (deduce_sound provider ih path _).2

/-- Later calls leave the answers of earlier ones alone. -/
theorem lookup_afterAll_append {earlier : List String} {path : String}
    {root? : Option ProjectRoot} {s : Session σ}
    (h : (afterAll provider earlier s).1.answers.lookup path = some root?) (later : List String) :
    (afterAll provider (earlier ++ later) s).1.answers.lookup path = some root? := by
  induction later using List.reverseRecOn with
  | nil => rwa [List.append_nil]
  | append_singleton later last ih =>
      rw [← List.append_assoc, afterAll_concat]
      exact (move_deduce provider _ last _).lookup ih

/-- The call for `path`, after those for `earlier`, found a root that was not known before. -/
def FoundFor (provider : Provider σ) (s : Session σ) (earlier : List String) (path : String)
    (root : ProjectRoot) : Prop :=
  answerAfter provider earlier path s = .ok root ∧
    (afterAll provider (earlier ++ [path]) s).1.roots =
      (afterAll provider earlier s).1.roots ++ [root]

/-- Every root was found for a path that it contains. -/
theorem exists_foundFor {paths : List String} {s : Session σ} {root : ProjectRoot}
    (h : root ∈ (afterAll provider paths s).1.roots) :
    ∃ earlier path later, paths = earlier ++ path :: later ∧
      FoundFor provider s earlier path root ∧ root.contains (trimSlashes path) = true := by
  -- from the back: a root was there before the last path, or was found for it
  induction paths using List.reverseRecOn with
  | nil => exact absurd h (by simp [afterAll, empty])
  | append_singleton paths last ih =>
      have old : root ∈ (afterAll provider paths s).1.roots →
          ∃ earlier path later, paths ++ [last] = earlier ++ path :: later ∧
            FoundFor provider s earlier path root ∧ root.contains (trimSlashes path) = true := by
        intro hold
        obtain ⟨earlier, path, later, rfl, hfound⟩ := ih hold
        exact ⟨earlier, path, later ++ [last], by simp, hfound⟩
      rw [afterAll_concat] at h
      rcases (move_deduce provider (afterAll provider paths s).1 last _).roots with
        hsame | ⟨new, hnew, hresult, hcontains, -, -⟩
      · exact old (hsame ▸ h)
      · rw [hnew] at h
        rcases List.mem_append.mp h with hold | hlast
        · exact old hold
        · obtain rfl := List.mem_singleton.mp hlast
          refine ⟨paths, last, [], rfl, ⟨hresult, ?_⟩, hcontains⟩
          rw [afterAll_concat]
          exact hnew

/-- A path that was answered is answered likewise from then on, and nothing is asked about it. -/
theorem deduce_of_answerAfter {earlier later : List String} {asked path : String} {s : Session σ}
    {result : Except ResolveError ProjectRoot}
    (hresult : answerAfter provider earlier asked s = result)
    (hfine : ∀ root message, result ≠ .error (.provider root message))
    (hsame : trimSlashes path = trimSlashes asked) (t : Session σ) :
    (afterAll provider (earlier ++ asked :: later) s).1.deduce provider path t =
      (result, (afterAll provider (earlier ++ asked :: later) s).1, t) := by
  have hmove := move_deduce provider (afterAll provider earlier s).1 asked
    (afterAll provider earlier s).2
  obtain ⟨root?, hlookup, hanswer⟩ := hmove.lookup_self fun root message => by
    rw [← answerAfter, hresult]
    exact hfine root message
  rw [← afterAll_concat] at hlookup
  have hkept := lookup_afterAll_append hlookup later
  rw [List.append_assoc, List.singleton_append] at hkept
  rw [← answerAfter, hresult] at hanswer
  rw [deduce_of_answered (hsame ▸ hkept), hsame, hanswer]

/-- What a call for `path` keeps, after the calls for `paths`. -/
structure Keeps (provider : Provider σ) (s : Session σ) (paths : List String) (path : String) :
    Prop where
  /-- A root that is given contains the path. -/
  contains : ∀ root, answerAfter provider paths path s = .ok root →
    root.contains (trimSlashes path) = true
  /-- A path that got a root before, or was found to have none, is answered likewise; no question
  is asked, and nothing changes. -/
  again : ∀ earlier asked later, paths = earlier ++ asked :: later →
    trimSlashes path = trimSlashes asked →
    (∀ root message, answerAfter provider earlier asked s ≠ .error (.provider root message)) →
    answerAfter provider paths path s = answerAfter provider earlier asked s ∧
      afterAll provider (paths ++ [path]) s = afterAll provider paths s
  /-- No question is asked about a path in a known root. -/
  quiet : ∀ root ∈ (afterAll provider paths s).1.roots, root.contains (trimSlashes path) = true →
    (afterAll provider (paths ++ [path]) s).2 = (afterAll provider paths s).2
  /-- If the provider fails, roots and answers are as before. -/
  undone : ∀ root message, answerAfter provider paths path s = .error (.provider root message) →
    (afterAll provider (paths ++ [path]) s).1 = (afterAll provider paths s).1

theorem keeps (provider : Provider σ) (s : Session σ) (paths : List String) (path : String) :
    Keeps provider s paths path where
  contains := (deduce_sound provider (sound_afterAll provider paths s) path _).1
  again earlier asked later hpaths hsame hfine := by
    subst hpaths
    have hagain : (afterAll provider (earlier ++ asked :: later) s).1.deduce provider path _ = _ :=
      deduce_of_answerAfter rfl hfine hsame (afterAll provider (earlier ++ asked :: later) s).2
    rw [answerAfter, afterAll_concat, hagain]
    exact ⟨rfl, rfl⟩
  quiet root hroot hcontains := by
    rw [afterAll_concat]
    exact (move_deduce provider _ path _).session_of_contains hroot hcontains
  undone root message hfailed := by
    rw [afterAll_concat]
    exact (move_deduce provider _ path _).deducer_of_failed hfailed

/-- After any calls every root was found for a path that it contains, roots are distinct and have
texts, none lies in one that was found before it, and of those that contain a path the first is the
longest. And every further call keeps to what was answered. -/
theorem calls_keep (provider : Provider σ) (paths : List String) (s : Session σ) :
    (∀ root ∈ (afterAll provider paths s).1.roots, ∃ earlier path later,
        paths = earlier ++ path :: later ∧ FoundFor provider s earlier path root ∧
        root.contains (trimSlashes path) = true) ∧
      (afterAll provider paths s).1.roots.Nodup ∧
      Nested (afterAll provider paths s).1.roots ∧
      (∀ path root, (afterAll provider paths s).1.roots.find? (·.contains path) = some root →
        ∀ other ∈ (afterAll provider paths s).1.roots, other.contains path = true →
          other = root ∨ other.text.length < root.text.length) ∧
      ∀ path, Keeps provider s paths path := by
  have hnested := nested_afterAll provider paths s
  refine ⟨fun root => exists_foundFor, hnested.nodup, hnested, ?_, keeps provider s paths⟩
  intro path root hfirst other hother hcontains
  exact hnested.longest hfirst hother hcontains

end

namespace Flaky

/-- It fails on the first question, denies the second, and affirms all others. -/
def provider : Provider Nat where
  name := "flaky"
  listVersions _ _ n := ⟨.ok [], [], n⟩
  sourceExists _ n := ⟨if n = 0 then .error (.other (.own "offline")) else .ok (n ≠ 1), [], n + 1⟩

/-- The second call finds an inner root, and the last one the root around it. -/
def paths : List String :=
  ["example.org/a/b/c", "example.org/a/b/c", "example.org/a/b", "example.org/a"]

end Flaky

open Flaky in
theorem calls_keep_flaky :
    answerAfter provider [] "example.org/a/b/c" (.start 0) =
        .error (.provider "example.org/a" "offline") ∧
      (afterAll provider ["example.org/a/b/c"] (.start 0)).1 = empty ∧
      (afterAll provider paths (.start 0)).1.roots =
        [.ofString "example.org/a/b", .ofString "example.org/a"] ∧
      Nested (afterAll provider paths (.start 0)).1.roots ∧
      (afterAll provider (paths ++ ["/example.org/a/b/c/"]) (.start 0)).2.questions.length = 4 := by
  obtain ⟨-, -, -, -, hcalls⟩ := calls_keep provider [] (.start 0)
  have hfailed : answerAfter provider [] "example.org/a/b/c" (.start 0) =
      .error (.provider "example.org/a" "offline") := by decide +kernel
  have hundone := (hcalls "example.org/a/b/c").undone _ _ hfailed
  obtain ⟨-, -, hnested, -, hcalls⟩ := calls_keep provider paths (.start 0)
  have hroots : (afterAll provider paths (.start 0)).1.roots =
      [.ofString "example.org/a/b", .ofString "example.org/a"] := by decide +kernel
  have hquiet := (hcalls "/example.org/a/b/c/").quiet (.ofString "example.org/a/b")
    (by rw [hroots]; exact List.mem_cons_self) (by decide +kernel)
  refine ⟨hfailed, hundone, hroots, hnested, ?_⟩
  rw [hquiet]
  decide +kernel

end Deducer

end Relock
