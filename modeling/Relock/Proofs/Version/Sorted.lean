import Mathlib.Data.List.Basic
import Mathlib.Data.String.Basic
import Relock.Proofs.Version.Order

/-!
# What a sorted list of versions looks like

The upgrade order is linear on all versions, so sorting by it leaves nothing to chance but the order
of entries with the same version, which stays as it was. Read class by class (`Version.Kind`), a
sorted list holds

* the releases and then the pre-releases, both from the highest number to the lowest;
* the default branches, the other branches and then all other tags, each by name.

`Ranked` says so of a list and its sorted form, and `ranked_sortForUpgrade` that sorting gives that
form.
-/

namespace Relock

/-! ## Lists by classes -/

/-- A list in which all that satisfies `p` comes first is that part and then the rest. -/
theorem eq_filter_append_filter {α : Type} {p : α → Bool} {l : List α}
    (h : l.Pairwise fun a b => p b = true → p a = true) :
    l = l.filter p ++ l.filter (! p ·) := by
  induction l with
  | nil => rfl
  | cons a l ih =>
      obtain ⟨hfirst, hrest⟩ := List.pairwise_cons.mp h
      cases ha : p a with
      | true =>
          rw [List.filter_cons_of_pos ha, List.filter_cons_of_neg (by simp [ha]),
            List.cons_append, ← ih hrest]
      | false =>
          -- then nothing after it satisfies `p` either
          have hnone : ∀ b ∈ a :: l, p b = false := by
            rintro b (_ | ⟨_, hb⟩)
            · exact ha
            · cases hp : p b with
              | false => rfl
              | true => exact absurd (hfirst b hb hp) (by simp [ha])
          rw [List.filter_eq_nil_iff.mpr (by simpa using hnone), List.nil_append,
            List.filter_eq_self.mpr (by simpa using hnone)]

/-- A list whose entries follow the order of their classes is the classes one after the other. -/
theorem eq_flatMap_filter {α κ : Type} [DecidableEq κ] {kind : α → κ} {place : κ → Nat}
    {kinds : List κ} (hplace : kinds.Pairwise fun k k' => place k < place k') {l : List α}
    (hkind : ∀ a ∈ l, kind a ∈ kinds)
    (h : l.Pairwise fun a b => place (kind a) ≤ place (kind b)) :
    l = kinds.flatMap fun k => l.filter (kind · = k) := by
  induction kinds generalizing l with
  | nil => exact List.eq_nil_iff_forall_not_mem.mpr fun a ha => absurd (hkind a ha) (by simp)
  | cons k kinds ih =>
      obtain ⟨hfirst, hrest⟩ := List.pairwise_cons.mp hplace
      -- what comes before an entry of the first class is of the first class
      have hfront :
          l.Pairwise fun a b => decide (kind b = k) = true → decide (kind a = k) = true := by
        refine h.imp_of_mem fun {a b} ha _ hle hb => ?_
        rw [of_decide_eq_true hb] at hle
        rcases List.mem_cons.mp (hkind a ha) with hsame | hlater
        · exact decide_eq_true hsame
        · have := hfirst _ hlater
          omega
      have hback : ∀ a ∈ l.filter fun a => !decide (kind a = k), kind a ∈ kinds := by
        intro a ha
        obtain ⟨hmem, hne⟩ := List.mem_filter.mp ha
        exact (List.mem_cons.mp (hkind a hmem)).resolve_left (by simpa using hne)
      have hclasses : ∀ k' ∈ kinds, (l.filter fun a => !decide (kind a = k)).filter (kind · = k') =
          l.filter (kind · = k') := by
        intro k' hk'
        have hne : k' ≠ k := fun hsame => by
          have := hfirst k' hk'
          rw [hsame] at this
          omega
        rw [List.filter_filter]
        refine List.filter_congr fun a _ => ?_
        by_cases ha : kind a = k' <;> simp [ha, hne]
      have hsplit := eq_filter_append_filter hfront
      rw [ih hrest hback (h.filter _), List.flatMap_congr hclasses] at hsplit
      rw [List.flatMap_cons]
      exact hsplit

/-! ## Classes of versions -/

namespace Version

/-- The classes that a sorted list goes through. -/
inductive Kind where
  | release
  | prerelease
  | defaultBranch
  | branch
  | tag
deriving DecidableEq

/-- The class of a version. -/
def kind : Version → Kind
  | semver number _ => if number.pre.isNone then .release else .prerelease
  | branch _ isDefault => if isDefault then .defaultBranch else .branch
  | tag _ => .tag

namespace Kind

/-- All classes, in upgrade order. -/
def all : List Kind := [release, prerelease, defaultBranch, branch, tag]

theorem mem_all (k : Kind) : k ∈ all := by
  cases k <;> decide

/-- The place of a class in that order. -/
def place (k : Kind) : Nat := all.idxOf k

/-- The rank that the upgrade order gives a class; it takes all branches together. -/
def rank : Kind → Nat
  | release => 0
  | prerelease => 1
  | defaultBranch | branch => 2
  | tag => 3

theorem place_le_of_rank_lt {k k' : Kind} (h : k.rank < k'.rank) : k.place ≤ k'.place := by
  revert h
  cases k <;> cases k' <;> decide

/-- What it means in a class that one version comes before another. -/
def Precedes (k : Kind) (a b : Version) : Prop :=
  match k with
  | release | prerelease =>
    ∃ m n, a.number? = some m ∧ b.number? = some n ∧ (m.compare n).isGE = true
  | defaultBranch | branch | tag => a.label ≤ b.label

end Kind

theorem kind_semver (number : Semver) (label : String) :
    (semver number label).kind = if number.pre.isNone then .release else .prerelease := rfl

theorem kind_branch (name : String) (isDefault : Bool) :
    (branch name isDefault).kind = if isDefault then .defaultBranch else .branch := rfl

theorem rank_eq (v : Version) : v.rank = v.kind.rank := by
  cases v with
  | semver number label => rw [kind_semver, rank]; split <;> rfl
  | branch name isDefault => cases isDefault <;> rfl
  | tag name => rfl

/-- The upgrade order goes through the classes one after the other. -/
theorem place_le_of_upgradeOrder {a b : Version} (h : (a.upgradeOrder b).isLE = true) :
    a.kind.place ≤ b.kind.place := by
  unfold upgradeOrder at h
  rcases Ordering.isLE_then_iff_or.mp h with hlt | ⟨heq, halike⟩
  · rw [rank_eq, rank_eq] at hlt
    exact Kind.place_le_of_rank_lt (Nat.compare_eq_lt.mp hlt)
  · have hrank : a.rank = b.rank := Std.compare_eq_iff_eq.mp heq
    rcases alike_of_rank_eq hrank with
      ⟨m, s, n, t, rfl, rfl⟩ | ⟨s, d, t, e, rfl, rfl⟩ | ⟨s, t, rfl, rfl⟩
    · rw [rank_eq, rank_eq, kind_semver, kind_semver] at hrank
      rw [kind_semver, kind_semver]
      cases hm : m.pre.isNone <;> cases hn : n.pre.isNone <;> simp [hm, hn, Kind.rank] at hrank ⊢
    · -- a branch that is not the default one does not come before one that is
      have hdefault : (compare e d).isLE = true := Ordering.isLE_left_of_isLE_then halike
      rw [kind_branch, kind_branch]
      revert hdefault
      cases d <;> cases e <;> decide
    · exact Nat.le_refl _

/-- Within a class, the upgrade order is that of the class. -/
theorem precedes_of_upgradeOrder {a b : Version} (hkind : a.kind = b.kind)
    (h : (a.upgradeOrder b).isLE = true) : a.kind.Precedes a b := by
  have hrank : a.rank = b.rank := by rw [rank_eq, rank_eq, hkind]
  have hself : compare b.rank b.rank = .eq := Std.ReflCmp.compare_self
  have halike : (a.compareAlike b).isLE = true := by rwa [upgradeOrder, hrank, hself] at h
  rcases alike_of_rank_eq hrank with
    ⟨m, s, n, t, rfl, rfl⟩ | ⟨s, d, t, e, rfl, rfl⟩ | ⟨s, t, rfl, rfl⟩
  · have hnumber : (compare m n).isGE = true :=
      Std.OrientedCmp.isGE_iff_isLE.mpr (Ordering.isLE_left_of_isLE_then halike)
    rw [kind_semver]
    cases m.pre.isNone <;> exact ⟨m, n, rfl, rfl, hnumber⟩
  · have hdefault : d = e := by
      revert hkind
      cases d <;> cases e <;> simp [kind]
    rw [hdefault] at halike ⊢
    have hsame : compare e e = .eq := Std.ReflCmp.compare_self
    have hname : s ≤ t := by
      rwa [compareAlike, hsame, Ordering.then, Std.LawfulBCmp.isLE_iff_le] at halike
    cases e <;> exact hname
  · rw [compareAlike, Std.LawfulBCmp.isLE_iff_le] at halike
    exact halike

end Version

/-! ## Sorting -/

/-- A comparison that is a linear order. -/
structure IsLinear {α : Type} (cmp : α → α → Ordering) : Prop where
  /-- Compared the other way round, the result is the other way round. -/
  swap : ∀ a b, cmp b a = (cmp a b).swap
  trans : ∀ a b c, (cmp a b).isLE = true → (cmp b c).isLE = true → (cmp a c).isLE = true
  lt_trans : ∀ a b c, cmp a b = .lt → cmp b c = .lt → cmp a c = .lt
  /-- Only equal things compare as equal. -/
  eq_iff : ∀ a b, cmp a b = .eq ↔ a = b

/-- What a list is when it is sorted into upgrade order. -/
structure Ranked (versions sorted : List PairedVersion) : Prop where
  /-- The entries stay the same. -/
  perm : sorted.Perm versions
  ordered : sorted.Pairwise fun a b => (a.version.upgradeOrder b.version).isLE = true
  /-- Entries of one version keep their order. -/
  stable : ∀ version, (sorted.filter (·.version = version)) = versions.filter (·.version = version)
  /-- The classes follow one another. -/
  classes : sorted = Version.Kind.all.flatMap fun k => sorted.filter (·.version.kind = k)
  /-- Each class has its own order. -/
  within : ∀ k, (sorted.filter (·.version.kind = k)).Pairwise fun a b =>
    k.Precedes a.version b.version

theorem stable_sortForUpgrade (versions : List PairedVersion) (version : Version) :
    (sortForUpgrade versions).filter (·.version = version) =
      versions.filter (·.version = version) := by
  -- the entries of one version are in order already, so sorting keeps them as a sublist
  have hsame : (versions.filter (·.version = version)).Pairwise fun a b =>
      (a.version.upgradeOrder b.version).isLE = true := by
    refine List.pairwise_of_forall_mem_list fun a ha b hb => ?_
    rw [of_decide_eq_true (List.mem_filter.mp ha).2, of_decide_eq_true (List.mem_filter.mp hb).2]
    have hself : version.upgradeOrder version = .eq := Std.ReflCmp.compare_self
    rw [hself]
    rfl
  have hsublist : (versions.filter (·.version = version)).Sublist (sortForUpgrade versions) :=
    List.sublist_mergeSort (fun _ _ _ => Std.TransCmp.isLE_trans)
      (fun a b => Version.upgradeOrder_total a.version b.version) hsame List.filter_sublist
  have hkept := hsublist.filter (·.version = version)
  rw [List.filter_filter] at hkept
  simp only [Bool.and_self] at hkept
  exact (hkept.eq_of_length ((sortForUpgrade_perm versions).filter _).length_eq.symm).symm

/-- The upgrade order is linear on versions, and sorting by it ranks them. -/
theorem ranked_sortForUpgrade : IsLinear Version.upgradeOrder ∧
    ∀ versions, Ranked versions (sortForUpgrade versions) := by
  have hlinear : IsLinear Version.upgradeOrder := {
    swap := fun a b => Std.OrientedCmp.eq_swap
    trans := fun a b c => Std.TransCmp.isLE_trans
    lt_trans := fun a b c => Std.TransCmp.lt_trans
    eq_iff := fun a b => Std.LawfulEqCmp.compare_eq_iff_eq }
  refine ⟨hlinear, fun versions => ?_⟩
  have hordered := pairwise_sortForUpgrade versions
  exact {
    perm := sortForUpgrade_perm versions
    ordered := hordered
    stable := stable_sortForUpgrade versions
    classes := eq_flatMap_filter (by decide) (fun v _ => v.version.kind.mem_all)
      (hordered.imp Version.place_le_of_upgradeOrder)
    within := by
      intro k
      refine (hordered.filter _).imp_of_mem fun {a b} ha hb hle => ?_
      have ha : a.version.kind = k := of_decide_eq_true (List.mem_filter.mp ha).2
      have hb : b.version.kind = k := of_decide_eq_true (List.mem_filter.mp hb).2
      exact ha ▸ Version.precedes_of_upgradeOrder (ha.trans hb.symm) hle }

end Relock
