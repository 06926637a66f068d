import Mathlib.Data.List.Infix
import Relock.Git.Provider

/-!
# One answer for each address

A repository may tell something else, or fail to tell, each time it is accessed. The provider asks it
again only as long as it has failed: the first thing that is told at an address is the answer to all
questions about it, whichever root and source they name.

* `Provider.ask` puts a question of either kind, and `exchange` does so with an access that keeps a
  record of itself. That changes nothing of what the provider answers (`askAll_eq`).
* **addresses** (`addressed`): a source is where it says, at the usual scheme if it names none; a root
  is at its configured address, and else at itself. Nothing is assumed of how addresses are read.
* **the step** (`exchange_cases`): a provider answers offline, refuses an address that cannot be
  read, answers from memory, or makes one access and remembers what was told, unless it failed.
* **the run** (`recalled_exchangeAll`): what is remembered at an address is what every later
  question about it gets, without an access.

`Consistent` puts together what follows for any questions, asked one after the other.
-/

namespace Relock

/-- What a provider answers to a question of either kind. -/
inductive Answer where
  | versions (told : Except SourceError (List PairedVersion))
  | existence (told : Except SourceError Bool)
deriving DecidableEq

namespace Provider

variable {σ : Type}

/-- Puts a question. -/
def ask (provider : Provider σ) (question : Question) (state : σ) : Answer × σ :=
  match question with
  | .versions root source =>
    let reply := provider.listVersions root source state
    (.versions reply.answer, reply.state)
  | .existence root =>
    let reply := provider.sourceExists root state
    (.existence reply.answer, reply.state)

/-- Puts several questions, one after the other. -/
def askAll (provider : Provider σ) : List Question → σ → List (Question × Answer) × σ
  | [], state => ([], state)
  | question :: questions, state =>
    let (answer, state) := provider.ask question state
    let (answers, state) := provider.askAll questions state
    ((question, answer) :: answers, state)

end Provider

namespace Git

variable {σ : Type}

/-! ## Questions and accesses -/

/-- The address that a question is about. -/
def address (net : Net σ) (s : Settings) : Question → Except SourceError Url
  | .versions root source => addressOf net.parse? s root source
  | .existence root => addressOf net.parse? s root none

/-- The answer to a question when it is known what is at its address. -/
def answerTo : Question → Option (List PairedVersion) → Answer
  | .versions _ _, some versions => .versions (.ok versions)
  | .versions root source, none => .versions (.error (.notFound (source.getD root.text)))
  | .existence _, some _ => .existence (.ok true)
  | .existence _, none => .existence (.ok false)

/-- The answer to a question that ends in an error. -/
def refusal : Question → SourceError → Answer
  | .versions _ _, error => .versions (.error error)
  | .existence _, error => .existence (.error error)

/-- The answer to a question by what came of it. -/
def conclude (question : Question) : Except SourceError (Option (List PairedVersion)) → Answer
  | .ok listing => answerTo question listing
  | .error error => refusal question error

/-- What came of an access to one who wants to know what is there. -/
def Access.outcome : Access → Except SourceError (Option (List PairedVersion))
  | .found versions => .ok (some versions)
  | .missing _ => .ok none
  | .failed fault => .error (.other fault)

/-- What an access leaves to be remembered. -/
def settled? (entry : Url × Access) : Option (Url × Option (List PairedVersion)) :=
  entry.2.outcome.toOption.map (entry.1, ·)

/-- What is remembered after an access. -/
def learn (url : Url) (told : Access) (listings : List (Url × Option (List PairedVersion))) :
    List (Url × Option (List PairedVersion)) :=
  (settled? (url, told)).toList ++ listings

/-- A net that keeps a record of the accesses. -/
def recorded (net : Net σ) : Net (σ × List (Url × Access)) where
  parse? := net.parse?
  access url m :=
    let (told, remotes) := net.access url m.1
    (told, remotes, m.2 ++ [(url, told)])

/-- A record changes no address. -/
theorem address_recorded (net : Net σ) (s : Settings) (question : Question) :
    address (recorded net) s question = address net s question := by
  cases question <;> rfl

/-- A question with its answer, and the accesses that were made for it. -/
structure Exchange where
  question : Question
  answer : Answer
  accesses : List (Url × Access)

/-- Puts a question to the provider, with a record of the accesses. -/
def exchange (net : Net σ) (s : Settings) (question : Question)
    (k : Knowledge σ) : Exchange × Knowledge σ :=
  let (answer, k') := (providerOn (recorded net) s).ask question ⟨(k.remotes, []), k.listings⟩
  (⟨question, answer, k'.remotes.2⟩, ⟨k'.remotes.1, k'.listings⟩)

/-- Puts several questions to the provider, one after the other. -/
def exchangeAll (net : Net σ) (s : Settings) :
    List Question → Knowledge σ → List Exchange × Knowledge σ
  | [], k => ([], k)
  | question :: questions, k =>
    let (e, k) := exchange net s question k
    let (es, k) := exchangeAll net s questions k
    (e :: es, k)

theorem learn_of_failed (url : Url) (fault : Fault)
    (listings : List (Url × Option (List PairedVersion))) :
    learn url (.failed fault) listings = listings := rfl

theorem lookup_learn_of_ok {url : Url} {told : Access} {listing : Option (List PairedVersion)}
    (h : told.outcome = .ok listing) (listings : List (Url × Option (List PairedVersion))) :
    (learn url told listings).lookup url = some listing := by
  unfold learn settled?
  rw [h]
  exact List.lookup_cons_self

theorem lookup_learn_of_ne {url url' : Url} (h : url ≠ url') (told : Access)
    (listings : List (Url × Option (List PairedVersion))) :
    (learn url' told listings).lookup url = listings.lookup url := by
  unfold learn settled?
  have hkey : (url == url') = false := by simpa using h
  cases told.outcome with
  | error error => rfl
  | ok listing =>
      show ((url', listing) :: listings).lookup url = listings.lookup url
      rw [List.lookup_cons, hkey]

/-! ## Addresses -/

theorem occurs_iff {part cs : List Char} : occurs part cs = true ↔ part <:+: cs := by
  induction cs with
  | nil => rw [occurs, List.isEmpty_iff, List.infix_nil]
  | cons c cs ih =>
      rw [occurs, Bool.or_eq_true, ih, List.isPrefixOf_iff_prefix, List.infix_cons_iff]

theorem toOption_readLocation (parse? : String → Option Url) (root : ProjectRoot)
    (location : String) : (readLocation parse? root location).toOption = parse? location := by
  unfold readLocation
  cases parse? location <;> rfl

/-- Where questions about a root are put. -/
structure Addressed (net : Net σ) (s : Settings) (root : ProjectRoot) : Prop where
  /-- A source that names a scheme is where it says. -/
  source : ∀ source, "://".toList <:+: source.toList →
    (address net s (.versions root (some source))).toOption = net.parse? source
  /-- Any other source is at the usual scheme. -/
  bareSource : ∀ source, ¬ "://".toList <:+: source.toList →
    (address net s (.versions root (some source))).toOption = net.parse? ("https://" ++ source)
  /-- Without a source, the configured address counts. -/
  configured : ∀ url, s.urls.lookup? root = some url → address net s (.existence root) = .ok url
  /-- Without that either, the root is at the usual scheme, whatever its text is. -/
  bareRoot : s.urls.lookup? root = none →
    (address net s (.existence root)).toOption = net.parse? ("https://" ++ root.text)
  /-- Both kinds of questions about a root are put in one place. -/
  same : address net s (.versions root none) = address net s (.existence root)

theorem addressed (net : Net σ) (s : Settings) (root : ProjectRoot) : Addressed net s root where
  source source hscheme := by
    show (readLocation net.parse? root (sourceLocation source)).toOption = _
    rw [toOption_readLocation, sourceLocation, if_pos (occurs_iff.mpr hscheme)]
  bareSource source hbare := by
    show (readLocation net.parse? root (sourceLocation source)).toOption = _
    rw [toOption_readLocation, sourceLocation, if_neg (mt occurs_iff.mp hbare)]
  configured url hurl := by
    show addressOf net.parse? s root none = _
    unfold addressOf
    rw [hurl]
  bareRoot hnone := by
    show (addressOf net.parse? s root none).toOption = _
    unfold addressOf
    rw [hnone]
    exact toOption_readLocation ..
  same := rfl

/-! ## The step -/

section

variable (net : Net σ) (s : Settings)

/-- What comes of a question, and what is known afterwards. -/
def reached (question : Question) (k : Knowledge σ) :
    Except SourceError (Option (List PairedVersion)) × Knowledge σ :=
  if s.offline then (.ok none, k)
  else
    match address net s question with
    | .error error => (.error error, k)
    | .ok url =>
      match k.listings.lookup url with
      | some listing => (.ok listing, k)
      | none =>
        let (told, remotes) := net.access url k.remotes
        (told.outcome, ⟨remotes, learn url told k.listings⟩)

theorem fetch_eq (access : Url → σ → Access × σ) (url : Url) (k : Knowledge σ) :
    ((fetch access url k).answer, (fetch access url k).state) =
      ((access url k.remotes).1.outcome,
        ⟨(access url k.remotes).2, learn url (access url k.remotes).1 k.listings⟩) := by
  unfold fetch
  rcases access url k.remotes with ⟨_ | _ | _, remotes⟩ <;> rfl

theorem listing_eq {root : ProjectRoot} {source : Option String} {question : Question}
    (haddress : addressOf net.parse? s root source = address net s question) (k : Knowledge σ) :
    ((listing net s root source k).answer, (listing net s root source k).state) =
      reached net s question k := by
  unfold listing reached
  rw [haddress]
  split
  · rfl
  · cases address net s question with
    | error error => rfl
    | ok url =>
        dsimp only
        cases k.listings.lookup url with
        | some listing => rfl
        | none => exact fetch_eq net.access url k

theorem ask_provider (question : Question) (k : Knowledge σ) :
    (providerOn net s).ask question k =
      (conclude question (reached net s question k).1, (reached net s question k).2) := by
  cases question with
  | versions root source =>
      have haddress : addressOf net.parse? s root source = address net s (.versions root source) := rfl
      have hlisting := listing_eq net s haddress k
      rw [← hlisting]
      show (Answer.versions ((listing net s root source k).answer.bind (orNotFound root source)),
        (listing net s root source k).state) = _
      rcases (listing net s root source k).answer with error | (_ | versions) <;> rfl
  | existence root =>
      have haddress : addressOf net.parse? s root none = address net s (.existence root) := rfl
      have hlisting := listing_eq net s haddress k
      rw [← hlisting]
      show (Answer.existence ((listing net s root none k).answer.map Option.isSome),
        (listing net s root none k).state) = _
      rcases (listing net s root none k).answer with error | (_ | versions) <;> rfl

/-- The ways in which a question is answered. -/
inductive Answered (question : Question) (k : Knowledge σ) : Exchange × Knowledge σ → Prop
  /-- Offline, everything is missing. -/
  | offline (h : s.offline = true) :
      Answered question k (⟨question, answerTo question none, []⟩, k)
  | refused (h : s.offline = false) {error : SourceError}
      (haddress : address net s question = .error error) :
      Answered question k (⟨question, refusal question error, []⟩, k)
  | recalled (h : s.offline = false) {url : Url} (haddress : address net s question = .ok url)
      {listing : Option (List PairedVersion)} (hknown : k.listings.lookup url = some listing) :
      Answered question k (⟨question, answerTo question listing, []⟩, k)
  | accessed (h : s.offline = false) {url : Url} (haddress : address net s question = .ok url)
      (hnew : k.listings.lookup url = none) {told : Access} {remotes : σ}
      (haccess : net.access url k.remotes = (told, remotes)) :
      Answered question k
        (⟨question, conclude question told.outcome, [(url, told)]⟩,
          ⟨remotes, learn url told k.listings⟩)

theorem exchange_cases (question : Question) (k : Knowledge σ) :
    Answered net s question k (exchange net s question k) := by
  unfold exchange
  rw [ask_provider]
  unfold reached
  cases hoffline : s.offline with
  | true => exact .offline hoffline
  | false =>
      rw [if_neg (by simp), address_recorded]
      cases haddress : address net s question with
      | error error => exact .refused hoffline haddress
      | ok url =>
          dsimp only
          cases hknown : k.listings.lookup url with
          | some listing => exact .recalled hoffline haddress hknown
          | none => exact .accessed hoffline haddress hknown rfl

end

namespace Answered

variable {net : Net σ} {s : Settings} {question : Question} {k : Knowledge σ}
  {after : Exchange × Knowledge σ} {url : Url} {listing : Option (List PairedVersion)}
  (h : Answered net s question k after)
include h

theorem question_eq : after.1.question = question := by
  cases h <;> rfl

/-- Keeping a record changes nothing of what is answered and of what is known then. -/
theorem ask_eq : (providerOn net s).ask question k = (after.1.answer, after.2) := by
  rw [ask_provider]
  unfold reached
  cases h with
  | offline hoffline =>
      rw [hoffline]
      rfl
  | refused hoffline haddress => simp [hoffline, haddress, conclude]
  | recalled hoffline haddress hknown => simp [hoffline, haddress, hknown, conclude]
  | accessed hoffline haddress hnew haccess => simp [hoffline, haddress, hnew, haccess]

theorem of_offline (hoffline : s.offline = true) :
    after = (⟨question, answerTo question none, []⟩, k) := by
  cases h with
  | offline => rfl
  | refused honline => exact absurd honline (by simp [hoffline])
  | recalled honline => exact absurd honline (by simp [hoffline])
  | accessed honline => exact absurd honline (by simp [hoffline])

/-- What is remembered at an address is what a question about it gets. -/
theorem of_lookup (hoffline : s.offline = false) (haddress : address net s question = .ok url)
    (hknown : k.listings.lookup url = some listing) :
    after = (⟨question, answerTo question listing, []⟩, k) := by
  cases h with
  | offline hoffline' => exact absurd hoffline' (by simp [hoffline])
  | refused _ haddress' => exact absurd haddress' (by simp [haddress])
  | recalled _ haddress' hknown' =>
      cases haddress.symm.trans haddress'
      cases hknown.symm.trans hknown'
      rfl
  | accessed _ haddress' hnew =>
      cases haddress.symm.trans haddress'
      exact absurd hnew (by simp [hknown])

/-- Where nothing is remembered, a question makes an access. -/
theorem exists_access (hoffline : s.offline = false) (haddress : address net s question = .ok url)
    (hnew : k.listings.lookup url = none) : ∃ told, (url, told) ∈ after.1.accesses := by
  cases h with
  | offline hoffline' => exact absurd hoffline' (by simp [hoffline])
  | refused _ haddress' => exact absurd haddress' (by simp [haddress])
  | recalled _ haddress' hknown =>
      cases haddress.symm.trans haddress'
      exact absurd hknown (by simp [hnew])
  | accessed _ haddress' =>
      cases haddress.symm.trans haddress'
      exact ⟨_, List.mem_singleton_self _⟩

/-- An access is made to the address of the question; what it told is the answer, and is remembered
unless it failed. -/
theorem of_mem_accesses {told : Access} (htold : (url, told) ∈ after.1.accesses) :
    s.offline = false ∧ address net s question = .ok url ∧ after.1.accesses = [(url, told)] ∧
      after.1.answer = conclude question told.outcome ∧
      after.2.listings = learn url told k.listings := by
  cases h with
  | offline => exact absurd htold (by simp)
  | refused => exact absurd htold (by simp)
  | recalled => exact absurd htold (by simp)
  | accessed hoffline haddress =>
      cases List.mem_singleton.mp htold
      exact ⟨hoffline, haddress, rfl, rfl, rfl⟩

/-- Nothing is told at an address where something is remembered, so it stays. -/
theorem lookup_eq_some (hknown : k.listings.lookup url = some listing) :
    after.2.listings.lookup url = some listing := by
  cases h with
  | offline => exact hknown
  | refused => exact hknown
  | recalled => exact hknown
  | @accessed _ url' _ hnew =>
      have hne : url ≠ url' := by
        rintro rfl
        exact absurd hnew (by simp [hknown])
      rw [lookup_learn_of_ne hne, hknown]

/-- Nothing is remembered at an address if all accesses to it fail. -/
theorem lookup_eq_none (hnew : k.listings.lookup url = none)
    (hfailed : ∀ told, (url, told) ∈ after.1.accesses → ∃ fault, told = .failed fault) :
    after.2.listings.lookup url = none := by
  cases h with
  | offline => exact hnew
  | refused => exact hnew
  | recalled => exact hnew
  | @accessed _ url' _ _ told =>
      show (learn url' told k.listings).lookup url = none
      by_cases hsame : url = url'
      · subst hsame
        obtain ⟨fault, rfl⟩ := hfailed told List.mem_cons_self
        rw [learn_of_failed, hnew]
      · rw [lookup_learn_of_ne hsame, hnew]

/-- The remembered listings are what the accesses left. -/
theorem listings_eq :
    after.2.listings = (after.1.accesses.filterMap settled?).reverse ++ k.listings := by
  cases h with
  | offline => rfl
  | refused => rfl
  | recalled => rfl
  | @accessed _ url _ _ told =>
      show learn url told k.listings = ([(url, told)].filterMap settled?).reverse ++ k.listings
      unfold learn
      cases hsettled : settled? (url, told) <;> simp [hsettled]

end Answered

/-- Where a repository was said to be there or not, that is remembered at its address. -/
theorem Answered.exists_lookup {net : Net σ} {s : Settings} {k : Knowledge σ}
    {after : Exchange × Knowledge σ} {root : ProjectRoot} {found : Bool}
    (h : Answered net s (.existence root) k after) (hoffline : s.offline = false)
    (hanswer : after.1.answer = .existence (.ok found)) :
    ∃ url listing, addressOf net.parse? s root none = .ok url ∧ listing.isSome = found ∧
      after.2.listings.lookup url = some listing := by
  have hfound : ∀ listing, answerTo (.existence root) listing = .existence (.ok found) →
      listing.isSome = found := by
    rintro (_ | versions) hlisting <;> simpa [answerTo] using hlisting
  cases h with
  | offline hoffline' => exact absurd hoffline' (by simp [hoffline])
  | refused => exact absurd hanswer (by simp [refusal])
  | recalled _ haddress hknown => exact ⟨_, _, haddress, hfound _ hanswer, hknown⟩
  | @accessed _ url haddress _ told =>
      cases houtcome : told.outcome with
      | error error => exact absurd hanswer (by simp [houtcome, conclude, refusal])
      | ok listing =>
          simp only [houtcome, conclude] at hanswer
          exact ⟨url, listing, haddress, hfound listing hanswer, lookup_learn_of_ok houtcome _⟩

/-! ## The run -/

section

variable {net : Net σ} {s : Settings} {k : Knowledge σ}

theorem exchangeAll_cons (question : Question) (questions : List Question) :
    exchangeAll net s (question :: questions) k =
      ((exchange net s question k).1 ::
          (exchangeAll net s questions (exchange net s question k).2).1,
        (exchangeAll net s questions (exchange net s question k).2).2) := rfl

/-- What holds between an exchange and all that come later holds between any two. -/
theorem pairwise_exchangeAll {R : Exchange → Exchange → Prop}
    (hR : ∀ question k questions,
      ∀ later ∈ (exchangeAll net s questions (exchange net s question k).2).1,
        R (exchange net s question k).1 later) (questions : List Question) :
    (exchangeAll net s questions k).1.Pairwise R := by
  induction questions generalizing k with
  | nil => exact List.Pairwise.nil
  | cons question questions ih =>
      rw [exchangeAll_cons]
      exact List.Pairwise.cons (hR question k questions) ih

/-- What is remembered at an address is what all questions about it get, without an access. -/
theorem recalled_exchangeAll {url : Url} {listing : Option (List PairedVersion)}
    (hoffline : s.offline = false) (hknown : k.listings.lookup url = some listing)
    {questions : List Question} {e : Exchange} (he : e ∈ (exchangeAll net s questions k).1)
    (haddress : address net s e.question = .ok url) :
    e.accesses = [] ∧ e.answer = answerTo e.question listing := by
  induction questions generalizing k with
  | nil => exact absurd he (by simp [exchangeAll])
  | cons question questions ih =>
      rw [exchangeAll_cons] at he
      have hstep := exchange_cases net s question k
      rcases List.mem_cons.mp he with hfirst | hlater
      · rw [hfirst, hstep.question_eq] at haddress
        rw [hfirst, hstep.of_lookup hoffline haddress hknown]
        exact ⟨rfl, rfl⟩
      · exact ih (hstep.lookup_eq_some hknown) hlater

/-- A question about an address makes an access as long as all accesses to it have failed. -/
theorem retried_exchangeAll {url : Url} (hoffline : s.offline = false)
    (hnew : k.listings.lookup url = none) {questions : List Question} {before after : List Exchange}
    {e : Exchange} (hsplit : (exchangeAll net s questions k).1 = before ++ e :: after)
    (haddress : address net s e.question = .ok url)
    (hfailed : ∀ earlier ∈ before, ∀ told, (url, told) ∈ earlier.accesses →
      ∃ fault, told = .failed fault) :
    ∃ told, e.accesses = [(url, told)] ∧ e.answer = conclude e.question told.outcome := by
  induction questions generalizing k before with
  | nil => exact absurd hsplit (by simp [exchangeAll])
  | cons question questions ih =>
      rw [exchangeAll_cons] at hsplit
      have hstep := exchange_cases net s question k
      cases before with
      | nil =>
          obtain ⟨hfirst, -⟩ := List.cons.inj hsplit
          rw [← hfirst, hstep.question_eq] at haddress
          obtain ⟨told, htold⟩ := hstep.exists_access hoffline haddress hnew
          obtain ⟨-, -, haccesses, hanswer, -⟩ := hstep.of_mem_accesses htold
          rw [← hfirst, hstep.question_eq]
          exact ⟨told, haccesses, hanswer⟩
      | cons first before =>
          obtain ⟨hfirst, hrest⟩ := List.cons.inj hsplit
          refine ih ?_ hrest fun earlier hearlier => hfailed earlier (List.mem_cons_of_mem _ hearlier)
          -- the first question left nothing at the address
          apply hstep.lookup_eq_none hnew
          intro told htold
          exact hfailed first List.mem_cons_self told (hfirst ▸ htold)

theorem offline_exchangeAll (hoffline : s.offline = true) {questions : List Question} {e : Exchange}
    (he : e ∈ (exchangeAll net s questions k).1) :
    e.accesses = [] ∧ e.answer = answerTo e.question none := by
  induction questions generalizing k with
  | nil => exact absurd he (by simp [exchangeAll])
  | cons question questions ih =>
      rw [exchangeAll_cons] at he
      rcases List.mem_cons.mp he with hfirst | hlater
      · rw [hfirst, (exchange_cases net s question k).of_offline hoffline]
        exact ⟨rfl, rfl⟩
      · exact ih hlater

/-- The remembered listings are what all accesses left. -/
theorem listings_exchangeAll (questions : List Question) :
    (exchangeAll net s questions k).2.listings =
      (((exchangeAll net s questions k).1.flatMap (·.accesses)).filterMap settled?).reverse ++
        k.listings := by
  induction questions generalizing k with
  | nil => rfl
  | cons question questions ih =>
      rw [exchangeAll_cons]
      dsimp only
      rw [ih, (exchange_cases net s question k).listings_eq, List.flatMap_cons,
        List.filterMap_append, List.reverse_append, List.append_assoc]

/-- Keeping a record changes nothing of what is answered in the course of any questions. -/
theorem askAll_eq (questions : List Question) :
    (providerOn net s).askAll questions k =
      ((exchangeAll net s questions k).1.map fun e => (e.question, e.answer),
        (exchangeAll net s questions k).2) := by
  induction questions generalizing k with
  | nil => rfl
  | cons question questions ih =>
      have hstep := exchange_cases net s question k
      rw [exchangeAll_cons]
      unfold Provider.askAll
      rw [hstep.ask_eq]
      dsimp only
      rw [ih, List.map_cons, hstep.question_eq]

end

/-! ## Any questions -/

/-- What holds of the exchanges with a provider and of what it remembers in the end. -/
structure Consistent (net : Net σ) (s : Settings) (exchanges : List Exchange)
    (listings : List (Url × Option (List PairedVersion))) : Prop where
  /-- Once an access has told what is at an address, every question about the address is answered
  from that, without another access. -/
  recalled : exchanges.Pairwise fun earlier later =>
    ∀ url told listing, (url, told) ∈ earlier.accesses → told.outcome = .ok listing →
      address net s later.question = .ok url →
      later.accesses = [] ∧ later.answer = answerTo later.question listing
  /-- As long as all accesses to an address have failed, a question about it makes another one, and
  what that one tells is the answer. -/
  retried : ∀ before e after, exchanges = before ++ e :: after → s.offline = false →
    ∀ url, address net s e.question = .ok url →
      (∀ earlier ∈ before, ∀ told, (url, told) ∈ earlier.accesses →
        ∃ fault, told = .failed fault) →
      ∃ told, e.accesses = [(url, told)] ∧ e.answer = conclude e.question told.outcome
  /-- Nothing is remembered but what accesses have told that did not fail. -/
  remembered : listings = ((exchanges.flatMap (·.accesses)).filterMap settled?).reverse
  /-- Where a repository was said to be, or not to be, its versions can be listed, or are not found.
  -/
  agreed : exchanges.Pairwise fun earlier later =>
    ∀ root found, earlier.question = .existence root → earlier.answer = .existence (.ok found) →
      later.question = .versions root none →
      if found then ∃ versions, later.answer = .versions (.ok versions)
      else later.answer = .versions (.error (.notFound root.text))
  /-- Offline no access is made, and everything is missing. -/
  offline : s.offline = true → ∀ e ∈ exchanges,
    e.accesses = [] ∧ e.answer = answerTo e.question none

section

variable {net : Net σ} {s : Settings} {k : Knowledge σ}

theorem pairwise_recalled (questions : List Question) :
    (exchangeAll net s questions k).1.Pairwise fun earlier later =>
      ∀ url told listing, (url, told) ∈ earlier.accesses → told.outcome = .ok listing →
        address net s later.question = .ok url →
        later.accesses = [] ∧ later.answer = answerTo later.question listing := by
  refine pairwise_exchangeAll (fun question k questions later hlater => ?_) questions
  intro url told listing htold houtcome haddress
  obtain ⟨hoffline, -, -, -, hlistings⟩ :=
    (exchange_cases net s question k).of_mem_accesses htold
  refine recalled_exchangeAll hoffline ?_ hlater haddress
  rw [hlistings, lookup_learn_of_ok houtcome]

theorem pairwise_agreed (questions : List Question) :
    (exchangeAll net s questions k).1.Pairwise fun earlier later =>
      ∀ root found, earlier.question = .existence root → earlier.answer = .existence (.ok found) →
        later.question = .versions root none →
        if found then ∃ versions, later.answer = .versions (.ok versions)
        else later.answer = .versions (.error (.notFound root.text)) := by
  refine pairwise_exchangeAll (fun question k questions later hlater => ?_) questions
  intro root found hquestion hanswer hversions
  have hstep := exchange_cases net s question k
  rw [hstep.question_eq] at hquestion
  subst hquestion
  -- both answers are taken from one listing: it was remembered when the first one was given
  obtain ⟨listing, hfound, hlisting⟩ : ∃ listing : Option (List PairedVersion),
      listing.isSome = found ∧ later.answer = answerTo later.question listing := by
    cases hoffline : s.offline with
    | true =>
        have hnone := (offline_exchangeAll hoffline hlater).2
        rw [hstep.of_offline hoffline] at hanswer
        refine ⟨none, ?_, hnone⟩
        simpa [answerTo] using hanswer
    | false =>
        obtain ⟨url, listing, haddress, hfound, hknown⟩ :=
          hstep.exists_lookup hoffline hanswer
        refine ⟨listing, hfound, (recalled_exchangeAll hoffline hknown hlater ?_).2⟩
        rw [hversions]
        exact haddress
  rw [hlisting, hversions, ← hfound]
  cases listing with
  | none => rfl
  | some versions => exact ⟨versions, rfl⟩

end

/-- A provider answers any questions consistently, however addresses are read, whatever the
repositories tell and how often they fail. The exchanges are those with the provider itself: its
answers are the ones given there, and what it knows in the end is what is known there. -/
theorem consistent_exchangeAll (net : Net σ) (s : Settings) (questions : List Question)
    (remotes : σ) :
    (providerOn net s).askAll questions ⟨remotes, []⟩ =
        ((exchangeAll net s questions ⟨remotes, []⟩).1.map fun e => (e.question, e.answer),
          (exchangeAll net s questions ⟨remotes, []⟩).2) ∧
      (∀ root, Addressed net s root) ∧
      Consistent net s (exchangeAll net s questions ⟨remotes, []⟩).1
        (exchangeAll net s questions ⟨remotes, []⟩).2.listings := by
  refine ⟨askAll_eq questions, addressed net s, ?_⟩
  constructor
  · exact pairwise_recalled questions
  · intro before e after hsplit hoffline url haddress hfailed
    exact retried_exchangeAll hoffline rfl hsplit haddress hfailed
  · rw [listings_exchangeAll, List.append_nil]
  · exact pairwise_agreed questions
  · intro hoffline e he
    exact offline_exchangeAll hoffline he

namespace Flaky

/-- Addresses are read as elsewhere, and what an access tells is on a tape. -/
def net : Net (List Access) where
  parse? := Url.parse?
  access _ tape :=
    match tape with
    | [] => (.missing "not found", [])
    | told :: later => (told, later)

def main : PairedVersion := ⟨.branch "main" true, ⟨"ff2948a"⟩⟩

/-- The first access fails, and the second one finds a branch. -/
def tape : List Access := [.failed (.own "unreachable"), .found [main]]

def root : ProjectRoot := .ofString "example.org/a"

/-- The last question is about another root, at a source that is the address of the first one in
other letters. -/
def questions : List Question :=
  [.existence root, .existence root, .versions root none, .existence root,
    .versions (.ofString "example.org/b") (some "EXAMPLE.org/a")]

def exchanges : List Exchange :=
  (exchangeAll net .empty questions ⟨tape, []⟩).1

def url : Url :=
  ⟨"https".toList, some ⟨[], "example.org".toList, none⟩, "/a".toList, none, none⟩

end Flaky

open Flaky in
theorem consistent_exchangeAll_flaky :
    ((providerOn net .empty).askAll questions ⟨tape, []⟩).1.map (·.2) =
        [.existence (.error (.other (.own "unreachable"))), .existence (.ok true),
          .versions (.ok [main]), .existence (.ok true), .versions (.ok [main])] ∧
      (address net .empty (.existence root)).toOption = some url ∧
      ∃ failed told later, exchanges = failed :: told :: later ∧
        failed.accesses = [(url, .failed (.own "unreachable"))] ∧
        told.accesses = [(url, .found [main])] ∧
        ∀ e ∈ later, e.accesses = [] ∧ e.answer = answerTo e.question (some [main]) := by
  obtain ⟨hask, haddressed, h⟩ := consistent_exchangeAll net .empty questions tape
  refine ⟨?_, ?_, ?_⟩
  · rw [hask]
    decide +kernel
  · rw [(haddressed root).bareRoot rfl]
    decide +kernel
  · refine ⟨_, _, _, rfl, by decide +kernel, by decide +kernel, fun e he => ?_⟩
    have hplaces : ∀ e ∈ exchanges.drop 2, address net .empty e.question = .ok url := by
      decide +kernel
    -- the second exchange was told what is there, so nothing after it makes an access
    have hlater := (List.pairwise_cons.mp (List.pairwise_cons.mp h.recalled).2).1 e he
    exact hlater url (.found [main]) (some [main]) (by decide +kernel) rfl (hplaces e he)

end Git

end Relock
