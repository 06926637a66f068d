import Relock.Proofs.Resolve.Choice
import Relock.Proofs.Version.Order

/-!
# The order of a listing does not matter

A provider may list the versions of a repository in any order. As long as no version is listed with
two revisions, all orders sort to the same, and what is chosen and what is told depend on nothing
else (`resolve_eq_of_perm`).
-/

namespace Relock

/-- Two listings of the same versions resolve to the same and tell the same, even if they come from
different providers at different times. -/
theorem resolve_eq_of_perm {σ τ : Type} {provider : Provider σ} {provider' : Provider τ}
    {root : ProjectRoot} {source : Option String} {s : Session σ} {t : Session τ}
    {versions versions' : List PairedVersion}
    (hlisted : (s.listVersions provider root source).1 = .ok versions)
    (hlisted' : (t.listVersions provider' root source).1 = .ok versions')
    (hperm : versions.Perm versions')
    (hrevision : ∀ a ∈ versions, ∀ b ∈ versions, a.version = b.version → a.revision = b.revision)
    (revision : Revision) (label : Option String) :
    ∃ resolution told,
      resolve provider root source revision label s =
          (.ok resolution, (s.listVersions provider root source).2.tellAll told) ∧
        resolve provider' root source revision label t =
          (.ok resolution, (t.listVersions provider' root source).2.tellAll told) := by
  have hsorted := sortForUpgrade_eq_of_perm hperm hrevision
  refine ⟨_, _, Resolution.resolve_of_listed hlisted revision label, ?_⟩
  rw [hsorted]
  exact Resolution.resolve_of_listed hlisted' revision label

namespace TwoListings

def revision : Revision := ⟨"ff2948a2ac8f538c4ecd55962e919d1e13e74baf"⟩

/-- Two tags of the same number and a branch on one commit, in upgrade order. -/
def versions : List PairedVersion :=
  [⟨.ofTag "1.0.0", revision⟩, ⟨.ofTag "v1.0.0", revision⟩, ⟨.branch "main" true, revision⟩]

def provider (versions : List PairedVersion) : Provider Unit :=
  .fixed "listing" (fun _ _ => .ok versions) fun _ => .ok true

def root : ProjectRoot := .ofString "github.com/x/dep"

/-- What is told of the choice among the three. -/
def notice : Notice :=
  .detail ("github.com/x/dep: 1.0.0, v1.0.0, main all point at " ++ revision.text ++
    ", choosing 1.0.0")

end TwoListings

open TwoListings in
theorem resolve_eq_of_perm_twoListings :
    versions ≠ versions.reverse ∧
      (∃ resolution told,
        resolve (provider versions) root none revision none (.start ()) =
            (.ok resolution, ⟨(), [.versions root none], told⟩) ∧
          resolve (provider versions.reverse) root none revision none (.start ()) =
            (.ok resolution, ⟨(), [.versions root none], told⟩)) ∧
      (resolve (provider versions) root none revision none (.start ())).2.notices = [notice] := by
  have hlisted : ∀ versions,
      ((Session.start ()).listVersions (provider versions) root none).1 = .ok versions :=
    fun _ => rfl
  have hperm : versions.Perm versions.reverse := (List.reverse_perm versions).symm
  have hrevision : ∀ a ∈ versions, ∀ b ∈ versions,
      a.version = b.version → a.revision = b.revision := by decide +kernel
  have hsame := resolve_eq_of_perm (hlisted versions) (hlisted versions.reverse) hperm hrevision
    revision none
  have hsorted : sortForUpgrade versions = versions :=
    List.mergeSort_of_pairwise (by decide +kernel)
  refine ⟨by decide +kernel, hsame, ?_⟩
  rw [Resolution.resolve_of_listed (hlisted versions), hsorted]
  decide +kernel

end Relock
