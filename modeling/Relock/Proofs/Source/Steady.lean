import Relock.Resolve.Choice
import Relock.Root.Deduction

/-!
# Providers that answer by fixed functions

A provider may have a state, and still answer the same question alike at all times:

* `Provider.AnswersExistence`: whether a repository lives at a root it says, or fails to say, by the
  root alone;
* `Provider.TellsExistence`: it never fails to say it either;
* `Provider.TellsVersions`: its listings, failures among them, depend on root and source alone.

Asking for candidates is then a search in a list (`probe_fst`, `probe_eq`), and resolving a root
gives the same at all times (`resolve_congr`).
-/

namespace Relock

variable {σ : Type} {provider : Provider σ}

/-- The provider says by a fixed function whether a repository lives at a root, or fails to. -/
def Provider.AnswersExistence (provider : Provider σ)
    (existence : ProjectRoot → Except SourceError Bool) : Prop :=
  ∀ root state, (provider.sourceExists root state).answer = existence root

/-- The provider always says whether a repository lives at a root, and goes by `known`. -/
def Provider.TellsExistence (provider : Provider σ) (known : ProjectRoot → Bool) : Prop :=
  ∀ root state, (provider.sourceExists root state).answer = .ok (known root)

/-- The provider lists versions by a fixed function. -/
def Provider.TellsVersions (provider : Provider σ)
    (versions : ProjectRoot → Option String → Except SourceError (List PairedVersion)) : Prop :=
  ∀ root source state, (provider.listVersions root source state).answer = versions root source

namespace Deducer

variable {existence : ProjectRoot → Except SourceError Bool} {known : ProjectRoot → Bool}

/-- The questions about candidates end at a root where a repository lives, and at one for which the
provider fails. -/
def endsAt (existence : ProjectRoot → Except SourceError Bool) (root : ProjectRoot) : Bool :=
  match existence root with
  | .ok found => found
  | .error _ => true

/-- What the question at which a search ended says of its root. -/
def verdict (existence : ProjectRoot → Except SourceError Bool) (root : ProjectRoot) :
    Except ResolveError (Option ProjectRoot) :=
  match existence root with
  | .ok _ => .ok (some root)
  | .error error => .error (.ofProbe root error)

/-- Asking ends at the first candidate at which it can. -/
theorem probe_fst (h : provider.AnswersExistence existence) (roots : List ProjectRoot)
    (s : Session σ) :
    (probe provider roots s).1 = (roots.find? (endsAt existence)).elim (.ok none)
      (verdict existence) := by
  induction roots generalizing s with
  | nil => rfl
  | cons candidate rest ih =>
      unfold probe Session.sourceExists
      dsimp only
      rw [h candidate s.state]
      rcases hexists : existence candidate with error | found
      · rw [List.find?_cons_of_pos (by simp [endsAt, hexists])]
        simp [verdict, hexists]
      · cases found with
        | true =>
            rw [List.find?_cons_of_pos (by simp [endsAt, hexists])]
            simp [verdict, hexists]
        | false =>
            rw [List.find?_cons_of_neg (by simp [endsAt, hexists])]
            exact ih _

/-- Asking finds the first candidate at which a repository lives. -/
theorem probe_eq (h : provider.TellsExistence known) (roots : List ProjectRoot) (s : Session σ) :
    (probe provider roots s).1 = .ok (roots.find? known) := by
  rw [@probe_fst _ _ (fun root => .ok (known root)) h roots s]
  -- no question fails, so they end where a repository lives
  show (roots.find? known).elim _ _ = _
  cases roots.find? known <;> rfl

end Deducer

/-- Resolving does not depend on what was asked before. -/
theorem resolve_congr
    {versions : ProjectRoot → Option String → Except SourceError (List PairedVersion)}
    (h : provider.TellsVersions versions) (root : ProjectRoot) (source : Option String)
    (revision : Revision) (label : Option String) (s t : Session σ) :
    (resolve provider root source revision label s).1 =
      (resolve provider root source revision label t).1 := by
  unfold resolve Session.listVersions
  dsimp only
  rw [h root source s.state, h root source t.state]
  cases versions root source <;> rfl

end Relock
