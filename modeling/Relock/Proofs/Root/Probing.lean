import Relock.Proofs.Root.Convention

/-!
# Asking about the beginnings of a path

A path without a root by convention gets one by asking. Here is what a deducer that knows nothing
yet asks about it, and what it makes of the answers, whatever they are.

* **the loop** (`Probing`): the four ways in which the questions can go on or end. What was asked,
  and what came of it, is read off them by induction (`Probing.questions`, `Probing.denied`,
  `Probing.outcome`).
* **the beginnings** (`ProjectRoot.beginning`): one more segment makes a longer root
  (`depth_beginning_succ`), but an empty one makes the same root again (`beginning_succ_of_nil`),
  since a root does not end in a slash.

So the questions are about longer and longer roots of two and more segments as long as no segment
is empty, and only then: an empty second segment makes a question about the first segment alone,
and any later one a question that was just asked.
-/

namespace Relock

namespace ProjectRoot

/-! ## Beginnings of a path -/

/-- The number of segments of a root. -/
def depth (root : ProjectRoot) : Nat := (segments root.text.toList).length

/-- The root at the first `n` segments of a path. -/
def beginning (path : String) (n : Nat) : ProjectRoot :=
  ofChars (joinSegments ((segments path.toList).take n))

/-- An empty segment at the end makes no difference to a root. -/
theorem ofChars_joinSegments_concat_nil {parts : List (List Char)}
    (hslash : ∀ part ∈ parts, '/' ∉ part) (hne : parts ≠ []) :
    ofChars (joinSegments (parts ++ [[]])) = ofChars (joinSegments parts) := by
  have hsegments : segments (joinSegments parts ++ ['/']) = parts ++ [[]] := by
    rw [segments_append_slash, segments_joinSegments hslash hne]
    rfl
  have hjoin : joinSegments (parts ++ [[]]) = joinSegments parts ++ ['/'] := by
    rw [← hsegments, joinSegments_segments]
  have htail : Text.dropTail isSlash (joinSegments parts ++ ['/']) =
      Text.dropTail isSlash (joinSegments parts) := by
    simp [Text.dropTail, isSlash]
  simp only [ofChars, hjoin, htail]

section

variable {path : String} {n : Nat}

theorem slash_not_mem_of_mem_take {part : List Char} (h : part ∈ (segments path.toList).take n) :
    '/' ∉ part :=
  slash_not_mem_of_mem_segments (List.mem_of_mem_take h)

/-- With an empty segment a beginning is the same root as without it. -/
theorem beginning_succ_of_nil (hn : 0 < n) (h : (segments path.toList)[n]? = some []) :
    beginning path (n + 1) = beginning path n := by
  have hne : (segments path.toList).take n ≠ [] := by
    intro hnil
    rcases List.take_eq_nil_iff.mp hnil with hzero | hempty
    · omega
    · exact segments_ne_nil _ hempty
  unfold beginning
  rw [List.take_add_one, h]
  exact ofChars_joinSegments_concat_nil (fun _ => slash_not_mem_of_mem_take) hne

/-- A beginning that does not end in an empty segment has just its segments. -/
theorem segments_beginning_succ {part : List Char} (h : (segments path.toList)[n]? = some part)
    (hpart : part ≠ []) :
    segments (beginning path (n + 1)).text.toList = (segments path.toList).take (n + 1) := by
  have hlast : ((segments path.toList).take (n + 1)).getLast? = some part := by
    rw [List.take_add_one, h]
    simp
  exact segments_ofChars_of_append (List.take_append_drop _ _).symm hlast hpart

theorem depth_beginning_succ {part : List Char} (h : (segments path.toList)[n]? = some part)
    (hpart : part ≠ []) : (beginning path (n + 1)).depth = n + 1 := by
  have hlength := (List.getElem?_eq_some_iff.mp h).1
  rw [depth, segments_beginning_succ h hpart, List.length_take]
  omega

theorem beginning_contains (hn : 0 < n) : (beginning path n).contains path = true := by
  refine contains_of_segments (List.take_append_drop n _).symm ?_
  intro hnil
  rcases List.take_eq_nil_iff.mp hnil with hzero | hempty
  · omega
  · exact segments_ne_nil _ hempty

/-- The first segment is a root of one segment, also if it is empty. -/
theorem depth_beginning_one (path : String) : (beginning path 1).depth = 1 := by
  cases hfirst : (segments path.toList)[0]? with
  | none => exact absurd (List.getElem?_eq_none_iff.mp hfirst) (by simpa using segments_ne_nil _)
  | some part =>
      by_cases hpart : part = []
      · have htake : (segments path.toList).take 1 = [[]] := by
          rw [List.take_add_one, hfirst, hpart]
          rfl
        rw [depth, beginning, htake]
        rfl
      · exact depth_beginning_succ hfirst hpart

theorem depth_beginning_le (hn : 1 ≤ n) (hlength : n ≤ (segments path.toList).length) :
    (beginning path n).depth ≤ n := by
  induction n, hn using Nat.le_induction with
  | base => rw [depth_beginning_one]
  | succ n hn ih =>
      have hget := List.getElem?_eq_getElem (Nat.lt_of_succ_le hlength)
      by_cases hpart : (segments path.toList)[n] = []
      · rw [beginning_succ_of_nil hn (hpart ▸ hget)]
        have := ih (by omega)
        omega
      · rw [depth_beginning_succ hget hpart]

/-- Without an empty second segment all further beginnings have two segments and more. -/
theorem two_le_depth_beginning (hsecond : (segments path.toList)[1]? ≠ some []) (hn : 2 ≤ n)
    (hlength : n ≤ (segments path.toList).length) : 2 ≤ (beginning path n).depth := by
  induction n, hn using Nat.le_induction with
  | base =>
      have hget := List.getElem?_eq_getElem (Nat.lt_of_succ_le hlength)
      rw [depth_beginning_succ hget fun hnil => hsecond (hnil ▸ hget)]
  | succ n hn ih =>
      have hget := List.getElem?_eq_getElem (Nat.lt_of_succ_le hlength)
      by_cases hpart : (segments path.toList)[n] = []
      · rw [beginning_succ_of_nil (by omega) (hpart ▸ hget)]
        exact ih (by omega)
      · rw [depth_beginning_succ hget hpart]
        omega

theorem beginning_contains_beginning {m : Nat} (hm : 1 ≤ m) (hmn : m ≤ n)
    (hlength : n ≤ (segments path.toList).length) :
    (beginning path m).contains (beginning path n).text = true := by
  induction n, hmn using Nat.le_induction with
  | base => exact contains_self _
  | succ n hmn ih =>
      have hget := List.getElem?_eq_getElem (Nat.lt_of_succ_le hlength)
      by_cases hpart : (segments path.toList)[n] = []
      · rw [beginning_succ_of_nil (by omega) (hpart ▸ hget)]
        exact ih (by omega)
      · rw [contains_iff_isPrefix, segments_beginning_succ hget hpart, List.prefix_take_iff]
        have hdepth := depth_beginning_le hm (by omega : m ≤ (segments path.toList).length)
        exact ⟨contains_iff_isPrefix.mp (beginning_contains hm), by rw [← depth]; omega⟩

end

/-! ## Runs of beginnings -/

/-- The beginnings of a path of two segments and more, `count` of them. -/
def beginnings (path : String) (count : Nat) : List ProjectRoot :=
  (List.range' 2 count).map (beginning path)

section

variable {path : String} {count : Nat}

theorem mem_beginnings {root : ProjectRoot} :
    root ∈ beginnings path count ↔ ∃ n, 2 ≤ n ∧ n ≤ count + 1 ∧ beginning path n = root := by
  unfold beginnings
  rw [List.mem_map]
  constructor
  · rintro ⟨n, hn, rfl⟩
    rw [List.mem_range'_1] at hn
    exact ⟨n, hn.1, by omega, rfl⟩
  · rintro ⟨n, hlow, hhigh, rfl⟩
    exact ⟨n, List.mem_range'_1.mpr ⟨hlow, by omega⟩, rfl⟩

theorem beginnings_pairwise_contains (hlength : count + 1 ≤ (segments path.toList).length) :
    (beginnings path count).Pairwise fun earlier later => earlier.contains later.text = true := by
  unfold beginnings
  rw [List.pairwise_map]
  refine List.Pairwise.imp_of_mem ?_ (List.pairwise_lt_range' 1)
  intro m n hm hn hlt
  rw [List.mem_range'_1] at hm hn
  exact beginning_contains_beginning (by omega) (by omega) (by omega)

/-- Only an empty second segment makes a root of one segment. -/
theorem two_le_depth_beginnings_iff (hlength : count + 1 ≤ (segments path.toList).length) :
    (∀ root ∈ beginnings path count, 2 ≤ root.depth) ↔
      (0 < count → (segments path.toList)[1]? ≠ some []) := by
  constructor
  · intro hdeep hcount hsecond
    have hfirst := hdeep (beginning path 2) (mem_beginnings.mpr ⟨2, by omega, by omega, rfl⟩)
    rw [beginning_succ_of_nil (by omega) hsecond, depth_beginning_one] at hfirst
    omega
  · intro hsecond root hroot
    obtain ⟨n, hlow, hhigh, rfl⟩ := mem_beginnings.mp hroot
    exact two_le_depth_beginning (hsecond (by omega)) hlow (by omega)

/-- Only an empty segment after the second one makes a root that is no longer than the one before
it. -/
theorem beginnings_pairwise_lt_iff (hlength : count + 1 ≤ (segments path.toList).length) :
    (beginnings path count).Pairwise (fun shorter longer => shorter.depth < longer.depth) ↔
      [] ∉ ((segments path.toList).take (count + 1)).drop 2 := by
  unfold beginnings
  rw [List.pairwise_map]
  constructor
  · intro hlonger hempty
    obtain ⟨i, hi⟩ := List.mem_iff_getElem?.mp hempty
    rw [List.getElem?_drop, List.getElem?_take] at hi
    split at hi
    · next hlt =>
      -- the roots with and without the empty segment are the same
      rw [List.pairwise_iff_getElem] at hlonger
      have hdepth := hlonger i (i + 1) (by simp; omega) (by simp; omega) (by omega)
      simp only [List.getElem_range'] at hdepth
      have hsame := beginning_succ_of_nil (by omega) hi
      rw [show 2 + 1 * (i + 1) = 2 + i + 1 by omega, show 2 + 1 * i = 2 + i by omega, hsame]
        at hdepth
      omega
    · exact absurd hi (by simp)
  · intro hfull
    refine List.Pairwise.imp_of_mem ?_ (List.pairwise_lt_range' 1)
    intro m n hm hn hlt
    rw [List.mem_range'_1] at hm hn
    obtain ⟨k, rfl⟩ : ∃ k, n = k + 1 := ⟨n - 1, by omega⟩
    have hget := List.getElem?_eq_getElem (show k < (segments path.toList).length by omega)
    have hpart : (segments path.toList)[k] ≠ [] := by
      intro hnil
      apply hfull
      rw [List.mem_iff_getElem?]
      refine ⟨k - 2, ?_⟩
      rw [List.getElem?_drop, List.getElem?_take, if_pos (by omega)]
      rw [show 2 + (k - 2) = k by omega, hget, hnil]
    have hshorter := depth_beginning_le (by omega) (by omega : m ≤ (segments path.toList).length)
    rw [depth_beginning_succ hget hpart]
    omega

end

end ProjectRoot

namespace Deducer

section

variable {σ : Type} {provider : Provider σ}

/-! ## The loop -/

/-- Roots that are asked about one after another, each with what the provider answers. -/
def replies (provider : Provider σ) :
    List ProjectRoot → Session σ → List (ProjectRoot × Except SourceError Bool)
  | [], _ => []
  | root :: roots, s =>
    (root, (s.sourceExists provider root).1) ::
      replies provider roots (s.sourceExists provider root).2

/-- How asking about candidates can go, by the roots that are asked about, what comes of it, and
what was done by then. -/
inductive Probing (provider : Provider σ) : List ProjectRoot → Session σ → List ProjectRoot →
    Except ResolveError (Option ProjectRoot) → Session σ → Prop
  /-- There is no candidate left. -/
  | exhausted (s : Session σ) : Probing provider [] s [] (.ok none) s
  /-- No repository lives at the candidate, and the next one is asked about. -/
  | denied {candidate : ProjectRoot} {rest asked : List ProjectRoot} {s s' : Session σ}
      {result : Except ResolveError (Option ProjectRoot)}
      (hreply : (s.sourceExists provider candidate).1 = .ok false)
      (hrest : Probing provider rest (s.sourceExists provider candidate).2 asked result s') :
      Probing provider (candidate :: rest) s (candidate :: asked) result s'
  /-- A repository lives at the candidate. -/
  | found {candidate : ProjectRoot} {rest : List ProjectRoot} {s : Session σ}
      (hreply : (s.sourceExists provider candidate).1 = .ok true) :
      Probing provider (candidate :: rest) s [candidate] (.ok (some candidate))
        (s.sourceExists provider candidate).2
  /-- The provider fails on the candidate. -/
  | failed {candidate : ProjectRoot} {rest : List ProjectRoot} {s : Session σ} {error : SourceError}
      (hreply : (s.sourceExists provider candidate).1 = .error error) :
      Probing provider (candidate :: rest) s [candidate] (.error (.ofProbe candidate error))
        (s.sourceExists provider candidate).2

/-- Asking goes in one of these ways. -/
theorem exists_probing (provider : Provider σ) (candidates : List ProjectRoot) (s : Session σ) :
    ∃ asked, Probing provider candidates s asked (probe provider candidates s).1
      (probe provider candidates s).2 := by
  induction candidates generalizing s with
  | nil => exact ⟨[], .exhausted s⟩
  | cons candidate rest ih =>
      obtain ⟨asked, hasked⟩ := ih (s.sourceExists provider candidate).2
      unfold probe
      rcases hreply : s.sourceExists provider candidate with ⟨reply, s'⟩
      have hfirst := congrArg Prod.fst hreply
      have hsecond := congrArg Prod.snd hreply
      dsimp only at hfirst hsecond
      rcases reply with error | _ | _
      · exact ⟨[candidate], hsecond ▸ .failed hfirst⟩
      · exact ⟨candidate :: asked, .denied hfirst (by rw [hsecond] at hasked ⊢; exact hasked)⟩
      · exact ⟨[candidate], hsecond ▸ .found hfirst⟩

namespace Probing

variable {candidates asked : List ProjectRoot} {s s' : Session σ}
  {result : Except ResolveError (Option ProjectRoot)}

theorem questions (h : Probing provider candidates s asked result s') :
    s'.questions = s.questions ++ asked.map .existence := by
  induction h with
  | exhausted => simp
  | denied _ _ ih =>
      rw [ih]
      simp [Session.sourceExists]
  | found | failed => rfl

theorem isPrefix (h : Probing provider candidates s asked result s') : asked <+: candidates := by
  induction h with
  | exhausted => exact List.prefix_rfl
  | denied _ _ ih => exact List.cons_prefix_cons.mpr ⟨rfl, ih⟩
  | found | failed => exact List.cons_prefix_cons.mpr ⟨rfl, List.nil_prefix⟩

/-- The questions go on only after a denial. -/
theorem denied_dropLast (h : Probing provider candidates s asked result s') :
    ∀ reply ∈ (replies provider asked s).dropLast, reply.2 = .ok false := by
  induction h with
  | exhausted | found | failed => simp [replies]
  | @denied candidate rest asked s s' result hreply hrest ih =>
      intro reply hmem
      by_cases hnil : replies provider asked (s.sourceExists provider candidate).2 = []
      · simp [replies, hnil] at hmem
      · rw [replies, List.dropLast_cons_of_ne_nil hnil] at hmem
        rcases List.mem_cons.mp hmem with rfl | hmem
        · exact hreply
        · exact ih reply hmem

/-- The questions end because there are no more candidates, or because the last one was not
denied. -/
theorem outcome (h : Probing provider candidates s asked result s') :
    (result = .ok none ∧ asked = candidates ∧ ∀ reply ∈ replies provider asked s,
        reply.2 = .ok false) ∨
      (∃ root, result = .ok (some root) ∧
        (replies provider asked s).getLast? = some (root, .ok true)) ∨
      ∃ root error, result = .error (.ofProbe root error) ∧
        (replies provider asked s).getLast? = some (root, .error error) := by
  induction h with
  | exhausted => exact .inl ⟨rfl, rfl, by simp [replies]⟩
  | @found candidate _ _ hreply => exact .inr (.inl ⟨candidate, rfl, by simp [replies, hreply]⟩)
  | @failed candidate _ _ error hreply =>
      exact .inr (.inr ⟨candidate, error, rfl, by simp [replies, hreply]⟩)
  | @denied candidate rest asked s s' result hreply hrest ih =>
      rcases ih with ⟨hresult, rfl, hdenied⟩ | ⟨root, hresult, hlast⟩ | ⟨root, error, hresult, hlast⟩
      · refine .inl ⟨hresult, rfl, ?_⟩
        intro reply hmem
        rcases List.mem_cons.mp hmem with rfl | hmem
        · exact hreply
        · exact hdenied reply hmem
      · exact .inr (.inl ⟨root, hresult, by simp [replies, List.getLast?_cons, hlast]⟩)
      · exact .inr (.inr ⟨root, error, hresult, by simp [replies, List.getLast?_cons, hlast]⟩)

end Probing

theorem candidates_eq_beginnings (path : String) :
    candidates path = ProjectRoot.beginnings path ((segments path.toList).length - 1) :=
  rfl

theorem eq_beginnings_of_isPrefix {path : String} {asked : List ProjectRoot}
    (h : asked <+: candidates path) :
    asked.length + 1 ≤ (segments path.toList).length ∧
      asked = ProjectRoot.beginnings path asked.length := by
  have hpos := List.length_pos_iff.mpr (segments_ne_nil path.toList)
  have hlength := h.length_le
  rw [candidates_eq_beginnings, ProjectRoot.beginnings, List.length_map, List.length_range']
    at hlength
  refine ⟨by omega, ?_⟩
  have htake := List.prefix_iff_eq_take.mp h
  rw [candidates_eq_beginnings, ProjectRoot.beginnings, ← List.map_take,
    List.take_range'_of_length_ge hlength] at htake
  exact htake

/-! ## A fresh deducer -/

/-- How a path gets its root by asking: what is asked about, and what comes of it. -/
structure Probed (provider : Provider σ) (path : String) (s : Session σ)
    (asked : List ProjectRoot) (result : Except ResolveError ProjectRoot) (s' : Session σ) :
    Prop where
  /-- Nothing else is asked. -/
  questions : s'.questions = s.questions ++ asked.map .existence
  /-- The questions are about the beginnings of two segments, of three, and so on. -/
  isPrefix : asked <+: candidates path
  contains : ∀ root ∈ asked, root.contains path = true
  nested : asked.Pairwise fun earlier later => earlier.contains later.text = true
  /-- All of them have two segments and more, unless the second segment is empty. -/
  deep : (∀ root ∈ asked, 2 ≤ root.depth) ↔
    (asked ≠ [] → (segments path.toList)[1]? ≠ some [])
  /-- Each is longer than the one before, unless a later segment is empty. -/
  longer : asked.Pairwise (fun shorter longer => shorter.depth < longer.depth) ↔
    [] ∉ ((segments path.toList).take (asked.length + 1)).drop 2
  /-- The questions go on only after a denial. -/
  denied : ∀ reply ∈ (replies provider asked s).dropLast, reply.2 = .ok false
  /-- After denials alone they go on to the end. -/
  complete : (∀ reply ∈ replies provider asked s, reply.2 = .ok false) → asked = candidates path
  found : ∀ root, result = .ok root ↔
    (replies provider asked s).getLast? = some (root, .ok true)
  missing : result = .error (.unresolvable path) ↔
    ∀ reply ∈ replies provider asked s, reply.2 = .ok false
  failed : ∀ root message, result = .error (.provider root message) ↔
    ∃ last error, (replies provider asked s).getLast? = some (last, .error error) ∧
      .provider root message = ResolveError.ofProbe last error

/-- What asking about the candidates of a path comes to, as the answer for the path. -/
def settled (path : String) :
    Except ResolveError (Option ProjectRoot) → Except ResolveError ProjectRoot
  | .ok root? => answer path root?
  | .error error => .error error

/-- Where the last reply is not a denial, not all of them are. -/
theorem not_denied_of_getLast? {replies : List (ProjectRoot × Except SourceError Bool)}
    {root : ProjectRoot} {reply : Except SourceError Bool}
    (hlast : replies.getLast? = some (root, reply)) (hreply : reply ≠ .ok false) :
    ¬ ∀ reply ∈ replies, reply.2 = .ok false := by
  intro hdenied
  exact hreply (hdenied _ (List.mem_of_getLast? hlast))

theorem Probing.probed {path : String} {asked : List ProjectRoot} {s s' : Session σ}
    {result : Except ResolveError (Option ProjectRoot)}
    (h : Probing provider (candidates path) s asked result s') :
    Probed provider path s asked (settled path result) s' where
  questions := h.questions
  isPrefix := h.isPrefix
  contains root hroot := contains_of_mem_candidates (h.isPrefix.subset hroot)
  nested := by
    obtain ⟨hlength, hasked⟩ := eq_beginnings_of_isPrefix h.isPrefix
    rw [hasked]
    exact ProjectRoot.beginnings_pairwise_contains hlength
  deep := by
    obtain ⟨hlength, hasked⟩ := eq_beginnings_of_isPrefix h.isPrefix
    rw [← List.length_pos_iff, ← ProjectRoot.two_le_depth_beginnings_iff hlength, ← hasked]
  longer := by
    obtain ⟨hlength, hasked⟩ := eq_beginnings_of_isPrefix h.isPrefix
    rw [← ProjectRoot.beginnings_pairwise_lt_iff hlength, ← hasked]
  denied := h.denied_dropLast
  complete hdenied := by
    -- the last answer tells in which of the three ways the probe ended
    rcases h.outcome with ⟨-, hall, -⟩ | ⟨last, -, hlast⟩ | ⟨last, error, -, hlast⟩
    · exact hall
    · exact absurd hdenied (not_denied_of_getLast? hlast (by simp))
    · exact absurd hdenied (not_denied_of_getLast? hlast (by simp))
  found root := by
    rcases h.outcome with ⟨rfl, -, hdenied⟩ | ⟨last, rfl, hlast⟩ | ⟨last, error, rfl, hlast⟩
    · refine iff_of_false (by simp [settled, answer]) fun hlast => ?_
      exact not_denied_of_getLast? hlast (by simp) hdenied
    · simp [settled, answer, hlast]
    · simp [settled, hlast]
  missing := by
    rcases h.outcome with ⟨rfl, -, hdenied⟩ | ⟨last, rfl, hlast⟩ | ⟨last, error, rfl, hlast⟩
    · exact iff_of_true rfl hdenied
    · exact iff_of_false (by simp [settled, answer]) (not_denied_of_getLast? hlast (by simp))
    · exact iff_of_false (by simp [settled, ResolveError.ofProbe])
        (not_denied_of_getLast? hlast (by simp))
  failed root message := by
    rcases h.outcome with ⟨rfl, -, hdenied⟩ | ⟨last, rfl, hlast⟩ | ⟨last, error, rfl, hlast⟩
    · refine iff_of_false (by simp [settled, answer]) ?_
      rintro ⟨last, error, hlast, -⟩
      exact not_denied_of_getLast? hlast (by simp) hdenied
    · simp [settled, answer, hlast]
    · simp [settled, hlast, eq_comm]

/-- A deducer that knows nothing asks about a path without a root by convention, and answers by what
it is told. -/
theorem probed_of_deduce {path : String} (hnone : Convention.root? path = none)
    (provider : Provider σ) (s : Session σ) :
    ∃ asked, Probed provider (trimSlashes path) s asked (empty.deduce provider path s).1
      (empty.deduce provider path s).2.2 := by
  have hsearch : search provider (trimSlashes path) s =
      probe provider (candidates (trimSlashes path)) s := by
    rw [search, Convention.root?_trimSlashes, hnone]
  obtain ⟨asked, hasked⟩ := exists_probing provider (candidates (trimSlashes path)) s
  have hprobed := hasked.probed
  refine ⟨asked, ?_⟩
  rw [deduce_of_new rfl rfl, find, hsearch]
  generalize probe provider (candidates (trimSlashes path)) s = outcome at hprobed ⊢
  obtain ⟨error | root?, s'⟩ := outcome
  · exact hprobed
  · cases root? with
    | none => exact hprobed
    -- the root is told of, which is no question
    | some root => exact { hprobed with }

end

namespace EmptySegments

/-- There is one repository, at a bare host. -/
def provider : Provider Unit :=
  .ofTable "table" [("example.org", [])] []

end EmptySegments

open EmptySegments in
/-- An empty segment makes the deducer ask about a root twice, or about a single segment, which it
may then take for the root. -/
theorem questions_repeated_emptySegments :
    (Convention.root? "example.org/a//b" = none ∧
      trimSlashes "example.org/a//b" = "example.org/a//b" ∧
      (empty.deduce provider "example.org/a//b" (.start ())).2.2.questions =
        [.existence (.ofString "example.org/a"), .existence (.ofString "example.org/a"),
          .existence (.ofString "example.org/a//b")]) ∧
      Convention.root? "example.org//b" = none ∧
      trimSlashes "example.org//b" = "example.org//b" ∧
      (empty.deduce provider "example.org//b" (.start ())).2.2.questions =
        [.existence (.ofString "example.org")] ∧
      (ProjectRoot.ofString "example.org").depth = 1 ∧
      (empty.deduce provider "example.org//b" (.start ())).1 = .ok (.ofString "example.org") := by
  decide +kernel

open EmptySegments in
theorem probed_of_deduce_emptySegments :
    Convention.root? "example.org/a//b" = none ∧
      ∃ asked, Probed provider "example.org/a//b" (.start ()) asked
          (.error (.unresolvable "example.org/a//b"))
          (empty.deduce provider "example.org/a//b" (.start ())).2.2 ∧
        asked.length = 3 ∧
        ¬ asked.Pairwise fun shorter longer => shorter.depth < longer.depth := by
  have hnone : Convention.root? "example.org/a//b" = none := by decide +kernel
  have htrim : trimSlashes "example.org/a//b" = "example.org/a//b" := by decide +kernel
  have hresult : (empty.deduce provider "example.org/a//b" (.start ())).1 =
      .error (.unresolvable "example.org/a//b") := by decide +kernel
  obtain ⟨asked, hprobed⟩ := probed_of_deduce hnone provider (.start ())
  rw [htrim, hresult] at hprobed
  have hall : asked = candidates "example.org/a//b" := hprobed.complete (hprobed.missing.mp rfl)
  have hlength : asked.length = 3 := by
    rw [hall]
    decide +kernel
  refine ⟨hnone, asked, hprobed, hlength, ?_⟩
  rw [hprobed.longer, hlength]
  decide +kernel

end Deducer

end Relock
