import Relock.Lock
import Relock.Proofs.FirstSeen

/-!
# Locks as lists of projects

What the two ways of changing a lock do to its list of projects: `addProject?` puts a project with
a new root last, and `addPackage` puts a package into use in the one project of its root.
-/

namespace Relock

namespace LockedProject

/-- One more package comes after the others, in first-seen order. -/
theorem addPackage_eq {p : LockedProject} {before : List String}
    (h : p.packages = before.eraseDups) (package : String) :
    p.addPackage package = { p with packages := (before ++ [package]).eraseDups } := by
  unfold addPackage
  by_cases hmem : package ∈ before
  · have hcontains : p.packages.contains package = true := by simp [h, hmem]
    rw [if_pos hcontains, eraseDups_concat_of_mem hmem, ← h]
  · have hcontains : ¬ p.packages.contains package = true := by simp [h, hmem]
    rw [if_neg hcontains, eraseDups_concat_of_not_mem hmem, ← h]

/-- Packages put into use one by one come after the others, in first-seen order. -/
theorem addPackages_eq {p : LockedProject} {before : List String}
    (h : p.packages = before.eraseDups) (packages : List String) :
    p.addPackages packages = { p with packages := (before ++ packages).eraseDups } := by
  induction packages generalizing p before with
  | nil =>
      rw [List.append_nil, ← h]
      rfl
  | cons package packages ih =>
      have hstep := addPackage_eq h package
      have hnext : (p.addPackage package).packages = (before ++ [package]).eraseDups := by
        rw [hstep]
      show (p.addPackage package).addPackages packages = _
      rw [ih hnext, hstep, List.append_assoc]
      rfl

end LockedProject

namespace Lock

theorem find?_isSome_iff {l : Lock} {root : ProjectRoot} :
    (l.find? root).isSome = true ↔ root ∈ l.projects.map (·.root) := by
  simp [find?]

theorem addProject?_of_not_mem {l : Lock} {p : LockedProject}
    (h : p.root ∉ l.projects.map (·.root)) :
    l.addProject? p = some { l with projects := l.projects ++ [p] } := by
  unfold addProject?
  rw [if_neg (find?_isSome_iff.not.mpr h)]

/-- No other project has the root of a project, if roots are distinct. -/
theorem filter_root_eq {projects : List LockedProject} (h : (projects.map (·.root)).Nodup)
    {p : LockedProject} (hp : p ∈ projects) : projects.filter (·.root = p.root) = [p] := by
  induction projects with
  | nil => exact absurd hp (by simp)
  | cons q rest ih =>
      rw [List.map_cons, List.nodup_cons] at h
      obtain ⟨hq, hrest⟩ := h
      rcases List.mem_cons.mp hp with rfl | hp
      · have hothers : rest.filter (·.root = p.root) = [] := by
          rw [List.filter_eq_nil_iff]
          intro q' hq' heq
          exact hq (of_decide_eq_true heq ▸ List.mem_map_of_mem hq')
        simp [hothers]
      · have hne : q.root ≠ p.root := fun heq => hq (heq ▸ List.mem_map_of_mem hp)
        rw [List.filter_cons_of_neg (by simpa using hne), ih hrest hp]

theorem find?_isSome_of_filter_eq {l : Lock} {p : LockedProject}
    (h : l.projects.filter (·.root = p.root) = [p]) : (l.find? p.root).isSome = true := by
  have hmem : p ∈ l.projects.filter (·.root = p.root) := by simp [h]
  exact find?_isSome_iff.mpr (List.mem_map_of_mem (List.mem_filter.mp hmem).1)

/-- Changing the first project of a root changes the only one, if roots are distinct. -/
theorem modifyFirst_eq_map {root : ProjectRoot} {f : LockedProject → LockedProject}
    {projects : List LockedProject} (h : (projects.map (·.root)).Nodup) :
    modifyFirst root f projects = projects.map fun p => if p.root = root then f p else p := by
  induction projects with
  | nil => rfl
  | cons p rest ih =>
      rw [List.map_cons, List.nodup_cons] at h
      obtain ⟨hp, hrest⟩ := h
      by_cases hroot : p.root = root
      · have hothers : rest.map (fun p => if p.root = root then f p else p) = rest := by
          refine (List.map_congr_left fun q hq => ?_).trans (List.map_id rest)
          have hne : q.root ≠ root := fun heq =>
            hp (hroot ▸ heq ▸ List.mem_map_of_mem hq)
          rw [if_neg hne, id]
        simp [modifyFirst, hroot, hothers]
      · simp [modifyFirst, hroot, ih hrest]

end Lock

end Relock
