import Mathlib.Data.List.TakeWhile
import Mathlib.Order.Defs.LinearOrder
import Relock.Version.Order

/-!
# The upgrade order is a linear order

Every comparison that the upgrade order is made of goes by keys, one after the other, so it is as
oriented and as transitive as the comparisons of the keys are. Only equal things compare as equal:

* identifiers, by precedence (`Identifier.comparePrecedence_eq`) and in build metadata
  (`Identifier.compareBuild_eq`);
* pre-releases (`Prerelease.compare_eq`) and semantic versions (`Semver.compare_eq`);
* versions in upgrade order (`Version.upgradeOrder_eq`).

So the versions of a repository have one sorted form, in whatever order they are listed
(`sortForUpgrade_eq_of_perm`).
-/

namespace Relock

attribute [ext] Identifier Prerelease

/-! ## Identifiers -/

namespace Identifier

/-- Numbers come before words, and the length counts for numbers only. -/
theorem comparePrecedence_eq : comparePrecedence =
    compareLex (compareOn fun i => !i.isNumeric)
      (compareLex (compareOn fun i => if i.isNumeric then i.chars.length else 0)
        (compareOn (·.chars))) := by
  funext a b
  unfold comparePrecedence compareLex compareOn
  cases ha : a.isNumeric <;> cases hb : b.isNumeric <;> simp [ha, hb] <;> rfl

/-- Numbers come before words; numbers go by their significant digits and then by their lengths. -/
theorem compareBuild_eq : compareBuild =
    compareLex (compareOn fun i => !i.isNumeric)
      (compareLex (compareOn fun i => if i.isNumeric then i.significant.length else 0)
        (compareLex (compareOn fun i => if i.isNumeric then i.significant else i.chars)
          (compareOn fun i => if i.isNumeric then i.chars.length else 0))) := by
  funext a b
  unfold compareBuild compareLex compareOn
  cases ha : a.isNumeric <;> cases hb : b.isNumeric <;> simp [ha, hb] <;> rfl

theorem eq_zeros_append_significant (i : Identifier) : ∃ n, i.chars =
    List.replicate n '0' ++ i.significant := by
  have hzeros : ∀ c ∈ i.chars.takeWhile (· == '0'), c = '0' := by
    intro c hc
    simpa using List.mem_takeWhile_imp hc
  refine ⟨(i.chars.takeWhile (· == '0')).length, ?_⟩
  rw [← List.eq_replicate_of_mem hzeros]
  exact List.takeWhile_append_dropWhile.symm

/-- The significant digits and the length tell an identifier. -/
theorem eq_of_significant {a b : Identifier} (hsignificant : a.significant = b.significant)
    (hlength : a.chars.length = b.chars.length) : a = b := by
  obtain ⟨m, ha⟩ := a.eq_zeros_append_significant
  obtain ⟨n, hb⟩ := b.eq_zeros_append_significant
  have hzeros : m = n := by
    rw [ha, hb, hsignificant] at hlength
    simpa using hlength
  apply Identifier.ext
  rw [ha, hb, hzeros, hsignificant]

instance : Std.TransCmp comparePrecedence := by
  rw [comparePrecedence_eq]
  infer_instance

instance : Std.LawfulEqCmp comparePrecedence where
  eq_of_compare {a b} h := by
    rw [comparePrecedence_eq, compareLex_eq_eq, compareLex_eq_eq] at h
    obtain ⟨-, -, hchars⟩ := h
    exact Identifier.ext (Std.compare_eq_iff_eq.mp hchars)

instance : Std.TransCmp compareBuild := by
  rw [compareBuild_eq]
  infer_instance

instance : Std.LawfulEqCmp compareBuild where
  eq_of_compare {a b} h := by
    rw [compareBuild_eq, compareLex_eq_eq, compareLex_eq_eq, compareLex_eq_eq] at h
    obtain ⟨hkind, -, htext, hlength⟩ := h
    have hkind : a.isNumeric = b.isNumeric := by simpa [compareOn] using hkind
    cases hb : b.isNumeric with
    | true =>
        simp only [compareOn, hkind, hb, Std.compare_eq_iff_eq, if_true] at htext hlength
        exact eq_of_significant htext hlength
    | false =>
        simp only [compareOn, hkind, hb, Std.compare_eq_iff_eq] at htext
        exact Identifier.ext htext

end Identifier

/-! ## Semantic versions -/

namespace Prerelease

/-- A release, whose pre-release is empty, comes last; else the identifiers decide. -/
theorem compare_eq : compare = compareLex (compareOn (·.ids.isEmpty))
    (Ordering.byKey (·.ids) (List.compareLex Identifier.comparePrecedence)) := by
  funext a b
  obtain ⟨_ | ⟨x, xs⟩, ha⟩ := a <;> obtain ⟨_ | ⟨y, ys⟩, hb⟩ := b <;> rfl

instance : Std.TransCmp compare := by
  rw [compare_eq]
  infer_instance

instance : Std.LawfulEqCmp compare where
  eq_of_compare {a b} h := by
    rw [compare_eq, compareLex_eq_eq] at h
    exact Prerelease.ext (Std.LawfulEqCmp.eq_of_compare h.2)

end Prerelease

namespace Semver

theorem compare_eq : compare =
    compareLex (compareOn (·.major)) (compareLex (compareOn (·.minor))
      (compareLex (compareOn (·.patch)) (compareLex (Ordering.byKey (·.pre) Prerelease.compare)
        (Ordering.byKey (·.build) (List.compareLex Identifier.compareBuild))))) := rfl

instance : Ord Semver := ⟨compare⟩

instance : Std.TransOrd Semver := by
  change Std.TransCmp compare
  rw [compare_eq]
  infer_instance

instance : Std.LawfulEqOrd Semver where
  eq_of_compare {a b} h := by
    change compare a b = .eq at h
    rw [compare_eq] at h
    simp only [compareLex_eq_eq] at h
    obtain ⟨hmajor, hminor, hpatch, hpre, hbuild⟩ := h
    cases a
    cases b
    congr
    · exact Std.LawfulEqCmp.eq_of_compare hmajor
    · exact Std.LawfulEqCmp.eq_of_compare hminor
    · exact Std.LawfulEqCmp.eq_of_compare hpatch
    · exact Std.LawfulEqCmp.eq_of_compare hpre
    · exact Std.LawfulEqCmp.eq_of_compare hbuild

end Semver

/-! ## Versions -/

namespace Version

def isDefault : Version → Bool
  | branch _ isDefault => isDefault
  | _ => false

theorem rank_semver_le (number : Semver) (label : String) : (semver number label).rank ≤ 1 := by
  unfold rank
  dsimp only
  split <;> omega

/-- Versions of one class are made alike. -/
theorem alike_of_rank_eq {a b : Version} (h : a.rank = b.rank) :
    (∃ m s n t, a = semver m s ∧ b = semver n t) ∨
      (∃ s d t e, a = branch s d ∧ b = branch t e) ∨ ∃ s t, a = tag s ∧ b = tag t := by
  have hbranch : ∀ s d, (branch s d).rank = 2 := fun _ _ => rfl
  have htag : ∀ s, (tag s).rank = 3 := fun _ => rfl
  cases a with
  | semver m s =>
      have hm := rank_semver_le m s
      cases b with
      | semver n t => exact .inl ⟨m, s, n, t, rfl, rfl⟩
      | branch t e => rw [hbranch] at h; omega
      | tag t => rw [htag] at h; omega
  | branch s d =>
      cases b with
      | semver n t => have hn := rank_semver_le n t; rw [hbranch] at h; omega
      | branch t e => exact .inr (.inl ⟨s, d, t, e, rfl, rfl⟩)
      | tag t => rw [hbranch, htag] at h; omega
  | tag s =>
      cases b with
      | semver n t => have hn := rank_semver_le n t; rw [htag] at h; omega
      | branch t e => rw [hbranch, htag] at h; omega
      | tag t => exact .inr (.inr ⟨s, t, rfl, rfl⟩)

/-- The class comes first, then the higher number, the default branch, and the label. -/
theorem upgradeOrder_eq : upgradeOrder =
    compareLex (compareOn rank) (compareLex (fun a b => compare b.number? a.number?)
      (compareLex (fun a b => compare b.isDefault a.isDefault) (compareOn label))) := by
  funext a b
  unfold upgradeOrder compareLex compareOn
  cases hrank : compare a.rank b.rank with
  | lt => rfl
  | gt => rfl
  | eq =>
      -- within a class, the keys of the other classes are all the same
      rcases alike_of_rank_eq (Std.compare_eq_iff_eq.mp hrank) with
        ⟨m, s, n, t, rfl, rfl⟩ | ⟨s, d, t, e, rfl, rfl⟩ | ⟨s, t, rfl, rfl⟩
      · simp only [compareAlike, number?, isDefault, label, Std.ReflCmp.compare_self]
        rfl
      · simp only [compareAlike, number?, isDefault, label, Std.ReflCmp.compare_self]
        rfl
      · simp only [compareAlike, number?, isDefault, label, Std.ReflCmp.compare_self]
        rfl

instance : Std.TransCmp upgradeOrder := by
  have hnumber : Std.TransCmp fun a b : Version => compare b.number? a.number? :=
    @Std.TransCmp.opposite _ (compareOn number?) _
  have hdefault : Std.TransCmp fun a b : Version => compare b.isDefault a.isDefault :=
    @Std.TransCmp.opposite _ (compareOn isDefault) _
  rw [upgradeOrder_eq]
  infer_instance

instance : Std.LawfulEqCmp upgradeOrder where
  eq_of_compare {a b} h := by
    rw [upgradeOrder_eq] at h
    simp only [compareLex_eq_eq, compareOn, Std.compare_eq_iff_eq] at h
    obtain ⟨hrank, hnumber, hdefault, hlabel⟩ := h
    rcases alike_of_rank_eq hrank with
      ⟨m, s, n, t, rfl, rfl⟩ | ⟨s, d, t, e, rfl, rfl⟩ | ⟨s, t, rfl, rfl⟩
    · have hnumber : n = m := Option.some.inj hnumber
      rw [hnumber, show s = t from hlabel]
    · rw [show s = t from hlabel, show e = d from hdefault]
    · rw [show s = t from hlabel]

/-- Of two versions, one does not come after the other. -/
theorem upgradeOrder_total (a b : Version) :
    ((a.upgradeOrder b).isLE || (b.upgradeOrder a).isLE) = true := by
  have hswap : b.upgradeOrder a = (a.upgradeOrder b).swap := Std.OrientedCmp.eq_swap
  rw [hswap]
  cases a.upgradeOrder b <;> rfl

end Version

/-! ## Sorted versions -/

theorem sortForUpgrade_perm (versions : List PairedVersion) :
    (sortForUpgrade versions).Perm versions :=
  List.mergeSort_perm versions _

/-- In the sorted list, no version comes after one that an upgrade would consider later. -/
theorem pairwise_sortForUpgrade (versions : List PairedVersion) :
    (sortForUpgrade versions).Pairwise fun a b =>
      (a.version.upgradeOrder b.version).isLE = true := by
  apply List.pairwise_mergeSort
  · intro a b c hab hbc
    exact Std.TransCmp.isLE_trans hab hbc
  · intro a b
    exact Version.upgradeOrder_total a.version b.version

/-- Lists of the same versions, in which a version has only one revision, sort to the same. -/
theorem sortForUpgrade_eq_of_perm {versions versions' : List PairedVersion}
    (h : versions.Perm versions')
    (hrevision : ∀ a ∈ versions, ∀ b ∈ versions, a.version = b.version → a.revision = b.revision) :
    sortForUpgrade versions = sortForUpgrade versions' := by
  have hperm : (sortForUpgrade versions).Perm (sortForUpgrade versions') :=
    (sortForUpgrade_perm versions).trans (h.trans (sortForUpgrade_perm versions').symm)
  refine hperm.eq_of_pairwise ?_ (pairwise_sortForUpgrade versions)
    (pairwise_sortForUpgrade versions')
  intro a b ha hb hab hba
  have hversion : a.version = b.version :=
    Std.LawfulEqCmp.eq_of_compare (Std.OrientedCmp.isLE_antisymm hab hba)
  have ha : a ∈ versions := (sortForUpgrade_perm versions).mem_iff.mp ha
  have hb : b ∈ versions := h.mem_iff.mpr ((sortForUpgrade_perm versions').mem_iff.mp hb)
  obtain ⟨version, revision⟩ := a
  obtain ⟨version', revision'⟩ := b
  have hrevision : revision = revision' := hrevision _ ha _ hb hversion
  rw [show version = version' from hversion, hrevision]

end Relock
