import Relock.Resolve.Choice
import Relock.Root.Deduction

/-!
# Providers that agree but for one root

Two providers agree but for a root if they answer alike every question except the one for the
versions of that root. Their states may be of different kinds: `Provider.AgreeBut` goes by a
relation between them that no question breaks, as in a simulation.

* Deducing a root never asks for versions, so both give the same answer (`AgreeBut.deduce`).
* Resolving any other root gives the same result (`AgreeBut.resolve`).
* Providers without a state agree as their fixed functions do (`agreeBut_fixed`).
-/

namespace Relock

variable {σ τ : Type}

/-- Two providers, in related states, answer alike but for the versions of `r`. -/
structure Provider.AgreeBut (r : ProjectRoot) (rel : σ → τ → Prop) (provider : Provider σ)
    (provider' : Provider τ) : Prop where
  existence : ∀ root s t, rel s t →
    (provider.sourceExists root s).answer = (provider'.sourceExists root t).answer
  versions : ∀ root source s t, rel s t → root ≠ r →
    (provider.listVersions root source s).answer = (provider'.listVersions root source t).answer
  afterExistence : ∀ root s t, rel s t →
    rel (provider.sourceExists root s).state (provider'.sourceExists root t).state
  afterVersions : ∀ root source s t, rel s t →
    rel (provider.listVersions root source s).state (provider'.listVersions root source t).state

/-- Fixed functions that agree but for one root make providers that do. -/
theorem Provider.agreeBut_fixed {r : ProjectRoot} {name name' : String}
    {versions versions' : ProjectRoot → Option String → Except SourceError (List PairedVersion)}
    {existence existence' : ProjectRoot → Except SourceError Bool}
    (hexistence : ∀ root, existence root = existence' root)
    (hversions : ∀ root source, root ≠ r → versions root source = versions' root source) :
    AgreeBut r (fun _ _ => True) (fixed name versions existence)
      (fixed name' versions' existence') where
  existence root _ _ _ := hexistence root
  versions root source _ _ _ hroot := hversions root source hroot
  afterExistence _ _ _ _ := trivial
  afterVersions _ _ _ _ _ := trivial

namespace Provider.AgreeBut

variable {r : ProjectRoot} {rel : σ → τ → Prop} {provider : Provider σ} {provider' : Provider τ}
  {s : Session σ} {t : Session τ}

/-! ## Deducing -/

theorem probe (h : AgreeBut r rel provider provider') (hst : rel s.state t.state)
    (candidates : List ProjectRoot) :
    (Deducer.probe provider candidates s).1 = (Deducer.probe provider' candidates t).1 ∧
      rel (Deducer.probe provider candidates s).2.state
        (Deducer.probe provider' candidates t).2.state := by
  induction candidates generalizing s t with
  | nil => exact ⟨rfl, hst⟩
  | cons candidate rest ih =>
      have hanswer := h.existence candidate s.state t.state hst
      have hnext := h.afterExistence candidate s.state t.state hst
      unfold Deducer.probe Session.sourceExists
      dsimp only
      rw [hanswer]
      cases (provider'.sourceExists candidate t.state).answer with
      | error error => exact ⟨rfl, hnext⟩
      | ok found =>
          cases found with
          | true => exact ⟨rfl, hnext⟩
          | false => exact ih hnext

theorem search (h : AgreeBut r rel provider provider') (hst : rel s.state t.state)
    (path : String) :
    (Deducer.search provider path s).1 = (Deducer.search provider' path t).1 ∧
      rel (Deducer.search provider path s).2.state (Deducer.search provider' path t).2.state := by
  unfold Deducer.search
  cases Convention.root? path with
  | some root => exact ⟨rfl, hst⟩
  | none => exact h.probe hst _

/-- Both give the same root, and remember the same. -/
theorem deduce (h : AgreeBut r rel provider provider') (hst : rel s.state t.state)
    (d : Deducer) (path : String) :
    (d.deduce provider path s).1 = (d.deduce provider' path t).1 ∧
      (d.deduce provider path s).2.1 = (d.deduce provider' path t).2.1 ∧
      rel (d.deduce provider path s).2.2.state (d.deduce provider' path t).2.2.state := by
  unfold Deducer.deduce
  dsimp only
  cases d.answers.lookup (trimSlashes path) with
  | some root? => exact ⟨rfl, rfl, hst⟩
  | none =>
      cases d.roots.find? (·.contains (trimSlashes path)) with
      | some root => exact ⟨rfl, rfl, hst⟩
      | none =>
          -- a search asks only which sources exist, and in that the providers agree
          obtain ⟨hanswer, hnext⟩ := h.search hst (trimSlashes path)
          unfold Deducer.find
          rcases hs : Deducer.search provider (trimSlashes path) s with ⟨answer, s'⟩
          rcases ht : Deducer.search provider' (trimSlashes path) t with ⟨answer', t'⟩
          rw [hs, ht] at hanswer hnext
          dsimp only at hanswer hnext
          subst hanswer
          rcases answer with error | (_ | root)
          · exact ⟨rfl, rfl, hnext⟩
          · exact ⟨rfl, rfl, hnext⟩
          · exact ⟨rfl, rfl, hnext⟩

/-! ## Resolving -/

theorem resolve (h : AgreeBut r rel provider provider') (hst : rel s.state t.state)
    (root : ProjectRoot) (source : Option String) (revision : Revision) (label : Option String) :
    (root ≠ r → (Relock.resolve provider root source revision label s).1 =
        (Relock.resolve provider' root source revision label t).1) ∧
      rel (Relock.resolve provider root source revision label s).2.state
        (Relock.resolve provider' root source revision label t).2.state := by
  have hnext := h.afterVersions root source s.state t.state hst
  unfold Relock.resolve Session.listVersions
  dsimp only
  refine ⟨fun hroot => ?_, ?_⟩
  · rw [h.versions root source s.state t.state hst hroot]
    cases (provider'.listVersions root source t.state).answer <;> rfl
  · cases (provider.listVersions root source s.state).answer <;>
      cases (provider'.listVersions root source t.state).answer <;> exact hnext

end Provider.AgreeBut

end Relock
