import Relock.Proofs.Convert.Journal
import Relock.Proofs.Lock
import Relock.Proofs.Manifest

/-!
# What a journal tells, item by item

How the books that a journal tells change with one more item, and two invariants of journals:

* `Journal.Orderly`: the first record of a root is marked as such, and all others as later ones. So
  the item that resolved a root is the first one of the root (`Orderly.firstOf?_eq`), and the roots
  of the projects are distinct (`Orderly.nodup_projects`);
* `Journal.Item.Valid`: what an outcome says of its record, such as that its root contains it.
-/

namespace Relock

namespace Journal

/-! ## What an item says -/

theorem Item.first?_of_outcome {e : Item} {root : ProjectRoot}
    {result : Except ResolveError Resolution} (h : e.outcome = .first root result) :
    e.first? = some root := by
  rw [first?, h]

theorem Item.root?_of_outcome {e : Item} {root : ProjectRoot}
    {result : Except ResolveError Resolution} (h : e.outcome = .first root result) :
    e.root? = some root := by
  rw [root?, h]

/-- Only a first record has the result of resolving its root. -/
theorem Item.outcome_of_first? {e : Item} {root : ProjectRoot} (h : e.first? = some root) :
    ∃ result, e.outcome = .first root result := by
  unfold first? at h
  split at h
  · next result houtcome => exact ⟨result, Option.some.inj h ▸ houtcome⟩
  · exact absurd h (by simp)

theorem Item.root?_of_first? {e : Item} {root : ProjectRoot} (h : e.first? = some root) :
    e.root? = some root := by
  obtain ⟨result, houtcome⟩ := outcome_of_first? h
  exact root?_of_outcome houtcome

theorem Item.deduced?_eq_ok_iff {e : Item} {root : ProjectRoot} :
    e.deduced? = some (.ok root) ↔ e.root? = some root := by
  unfold deduced? root?
  split <;> simp_all

theorem mem_roots {j : Journal} {root : ProjectRoot} :
    root ∈ j.roots ↔ ∃ e ∈ j, e.root? = some root := by
  rw [roots, List.mem_filterMap]

/-! ## One more item -/

theorem roots_concat (j : Journal) (e : Item) :
    roots (j ++ [e]) = roots j ++ e.root?.toList := by
  rw [roots, List.filterMap_append]
  cases h : e.root? <;> simp [roots, h]

theorem skipped_concat (j : Journal) (e : Item) :
    skipped (j ++ [e]) = skipped j ++ e.skipped?.toList := by
  rw [skipped, List.filterMap_append]
  cases h : e.skipped? <;> simp [skipped, h]

theorem asked_concat (j : Journal) (e : Item) :
    asked (j ++ [e]) = asked j ++ e.asked?.toList := by
  rw [asked, List.filterMap_append]
  cases h : e.asked? <;> simp [asked, h]

/-- A record of another root brings no package into use. -/
theorem packages_concat_of_ne {j : Journal} {e : Item} {root : ProjectRoot}
    (h : e.root? ≠ some root) : packages (j ++ [e]) root = packages j root := by
  have hnone : e.package? root = none := by rw [Item.package?, if_neg h]
  rw [packages, List.filterMap_append]
  simp [packages, hnone]

/-- A record of the root itself brings its package into use, if it is new. -/
theorem packages_concat {j : Journal} {e : Item} {root : ProjectRoot} {package : String}
    (h : e.root? = some root) (hpackage : root.relativePackage? e.path = some package) :
    packages (j ++ [e]) root = (j.filterMap (Item.package? root) ++ [package]).eraseDups := by
  have hsome : e.package? root = some package := by rw [Item.package?, if_pos h, hpackage]
  rw [packages, List.filterMap_append]
  simp [hsome]

/-- One more item may bring packages into use below the old roots, and a project of its own. -/
theorem projects_concat (j : Journal) (e : Item) :
    projects (j ++ [e]) =
      (projects j).map (fun p => { p with packages := packages (j ++ [e]) p.root }) ++
        (project? (j ++ [e]) e).toList := by
  have hold : j.filterMap (project? (j ++ [e])) =
      (projects j).map fun p => { p with packages := packages (j ++ [e]) p.root } := by
    rw [projects, List.map_filterMap]
    refine List.filterMap_congr fun e' _ => ?_
    unfold project?
    split <;> rfl
  rw [projects, List.filterMap_append, hold]
  cases h : project? (j ++ [e]) e <;> simp [h]

/-- If it brings nothing into use below them, the old projects stay as they are. -/
theorem projects_concat_of_eq {j : Journal} {e : Item}
    (hpackages : ∀ p ∈ projects j, packages (j ++ [e]) p.root = p.packages) :
    projects (j ++ [e]) = projects j ++ (project? (j ++ [e]) e).toList := by
  have hold : (projects j).map (fun p => { p with packages := packages (j ++ [e]) p.root }) =
      projects j := by
    refine (List.map_congr_left fun p hp => ?_).trans (List.map_id (projects j))
    rw [hpackages p hp, id]
  rw [projects_concat, hold]

/-! ## Projects and packages -/

/-- A project of the lock comes from the first record of its root. -/
theorem mem_projects {j : Journal} {p : LockedProject} :
    p ∈ j.projects ↔ ∃ e ∈ j, ∃ root resolution,
      e.outcome = .first root (.ok resolution) ∧
        p = ⟨root, e.record.source, resolution.version, j.packages root⟩ := by
  unfold projects
  rw [List.mem_filterMap]
  constructor
  · rintro ⟨e, he, hp⟩
    unfold project? at hp
    split at hp
    · next root resolution houtcome =>
      exact ⟨e, he, root, resolution, houtcome, (Option.some.inj hp).symm⟩
    · exact absurd hp (by simp)
  · rintro ⟨e, he, root, resolution, houtcome, rfl⟩
    exact ⟨e, he, by simp only [project?, houtcome]⟩

/-- Every project has the packages of its root. -/
theorem packages_of_mem_projects {j : Journal} {p : LockedProject} (h : p ∈ j.projects) :
    p.packages = j.packages p.root := by
  obtain ⟨e, _, root, resolution, _, rfl⟩ := mem_projects.mp h
  rfl

/-- The root of a project is the root of a record. -/
theorem root_mem_roots {j : Journal} {p : LockedProject} (h : p ∈ j.projects) :
    p.root ∈ j.roots := by
  obtain ⟨e, he, root, resolution, houtcome, rfl⟩ := mem_projects.mp h
  exact mem_roots.mpr ⟨e, he, Item.root?_of_outcome houtcome⟩

/-- A root without records has no packages in use. -/
theorem filterMap_package?_eq_nil {j : Journal} {root : ProjectRoot} (h : root ∉ j.roots) :
    j.filterMap (Item.package? root) = [] := by
  rw [List.filterMap_eq_nil_iff]
  intro e he
  rw [Item.package?, if_neg fun hroot => h (mem_roots.mpr ⟨e, he, hroot⟩)]

/-- Nothing is asked of a root that was not resolved. -/
theorem lookup_asked_eq_none {j : Journal} {root : ProjectRoot}
    (h : ∀ e ∈ j, ∀ resolution, e.outcome ≠ .first root (.ok resolution)) :
    j.asked.lookup root = none := by
  rw [List.lookup_eq_none_iff]
  rintro ⟨other, properties⟩ hmem
  obtain ⟨e, he, hasked⟩ := List.mem_filterMap.mp hmem
  unfold Item.asked? at hasked
  split at hasked
  · next first resolution houtcome =>
    obtain ⟨_, _, heq⟩ := Option.map_eq_some_iff.mp hasked
    obtain ⟨rfl, rfl⟩ := Prod.mk.inj heq
    have hne : root ≠ first := fun hsame => h e he resolution (hsame ▸ houtcome)
    simpa using hne
  · exact absurd hasked (by simp)

/-- Nothing is asked of a root without records. -/
theorem lookup_asked_eq_none_of_fresh {j : Journal} {root : ProjectRoot} (h : root ∉ j.roots) :
    j.asked.lookup root = none :=
  lookup_asked_eq_none fun e he _ houtcome =>
    h (mem_roots.mpr ⟨e, he, Item.root?_of_outcome houtcome⟩)

/-- The first record of a root that was resolved adds a project with one package. -/
theorem projects_concat_of_fresh {j : Journal} {record : ImportRecord} {root : ProjectRoot}
    (resolution : Resolution) {package : String} (hfresh : root ∉ j.roots)
    (hpackage : root.relativePackage? (trimSlashes record.importPath) = some package) :
    projects (j ++ [⟨record, .first root (.ok resolution)⟩]) =
      j.projects ++ [⟨root, record.source, resolution.version, [package]⟩] := by
  have hold : ∀ p ∈ j.projects,
      packages (j ++ [⟨record, .first root (.ok resolution)⟩]) p.root = p.packages := by
    intro p hp
    have hne : root ≠ p.root := fun heq => hfresh (heq ▸ root_mem_roots hp)
    rw [packages_concat_of_ne (by simpa [Item.root?] using hne), packages_of_mem_projects hp]
  have hnew : packages (j ++ [⟨record, .first root (.ok resolution)⟩]) root = [package] := by
    have hroot : (⟨record, .first root (.ok resolution)⟩ : Item).root? = some root := rfl
    rw [packages_concat hroot hpackage, filterMap_package?_eq_nil hfresh]
    simp [List.eraseDups_cons]
  rw [projects_concat_of_eq hold]
  simp [project?, hnew]

/-- A later record adds its package to the project of its root. -/
theorem projects_concat_of_later {j : Journal} {record : ImportRecord} {root : ProjectRoot}
    {package : String} (hnodup : (j.projects.map (·.root)).Nodup)
    (hpackage : root.relativePackage? (trimSlashes record.importPath) = some package) :
    projects (j ++ [⟨record, .later root⟩]) =
      Lock.modifyFirst root (·.addPackage package) j.projects := by
  rw [projects_concat, Lock.modifyFirst_eq_map hnodup]
  simp only [project?, Option.toList_none, List.append_nil]
  refine List.map_congr_left fun p hp => ?_
  have hpackages : p.packages = j.packages p.root := packages_of_mem_projects hp
  by_cases hroot : p.root = root
  · rw [if_pos hroot, LockedProject.addPackage_eq hpackages,
      packages_concat (by rw [hroot]; rfl) (by rw [hroot]; exact hpackage)]
  · have hne : root ≠ p.root := fun heq => hroot heq.symm
    rw [if_neg hroot, packages_concat_of_ne (by simpa [Item.root?] using hne), ← hpackages]

/-! ## Order -/

/-- In an orderly journal, the first record of a root is marked as such, and no other one is. -/
inductive Orderly : Journal → Prop
  | nil : Orderly []
  | concat {j : Journal} {e : Item} (hj : Orderly j)
      (hfirst : ∀ root ∈ e.first?, root ∉ j.roots)
      (hlater : ∀ root, e.outcome = .later root → root ∈ j.roots) : Orderly (j ++ [e])

/-- The item that resolved a root is the first one of the root. -/
theorem Orderly.firstOf?_eq {j : Journal} (h : j.Orderly) {e : Item} {root : ProjectRoot}
    (he : e ∈ j) (hfirst : e.first? = some root) : j.firstOf? root = some e := by
  unfold firstOf?
  induction h with
  | nil => exact absurd he (by simp)
  | @concat j last hj hnew _ ih =>
      rw [List.find?_append]
      rcases List.mem_append.mp he with hold | hlast
      · rw [ih hold]
        rfl
      · -- the root is new to the last item, so the search gets that far
        rw [List.mem_singleton.mp hlast] at hfirst ⊢
        have hnone : j.find? (·.root? = some root) = none := by
          rw [List.find?_eq_none]
          intro e' he' hroot
          exact hnew root hfirst (mem_roots.mpr ⟨e', he', by simpa using hroot⟩)
        rw [hnone]
        simp [Item.root?_of_first? hfirst]

/-- A root is resolved for one item only. -/
theorem Orderly.eq_of_outcome {j : Journal} (h : j.Orderly) {e e' : Item} {root : ProjectRoot}
    {result result' : Except ResolveError Resolution} (he : e ∈ j) (he' : e' ∈ j)
    (houtcome : e.outcome = .first root result) (houtcome' : e'.outcome = .first root result') :
    e = e' := by
  have hfound := h.firstOf?_eq he (Item.first?_of_outcome houtcome)
  rw [h.firstOf?_eq he' (Item.first?_of_outcome houtcome')] at hfound
  exact (Option.some.inj hfound).symm

/-- The first item of a root resolved it. -/
theorem Orderly.first?_of_firstOf? {j : Journal} (h : j.Orderly) {e : Item}
    {root : ProjectRoot} (he : j.firstOf? root = some e) : e.first? = some root := by
  unfold firstOf? at he
  induction h with
  | nil => exact absurd he (by simp)
  | @concat j last hj _ hlater ih =>
      rw [List.find?_append] at he
      rcases Option.or_eq_some_iff.mp he with hold | ⟨hnone, hlast⟩
      · exact ih hold
      · have heq : last = e := List.mem_singleton.mp (List.mem_of_find?_eq_some hlast) ▸ rfl
        subst heq
        have hroot : last.root? = some root := by simpa using List.find?_some hlast
        unfold Item.root? at hroot
        split at hroot
        · next houtcome =>
          rw [Item.first?, houtcome]
          exact hroot
        · next found houtcome =>
          -- A later item would have an earlier one of the same root before it.
          obtain ⟨e', he', hroot'⟩ := mem_roots.mp (hlater found houtcome)
          rw [List.find?_eq_none] at hnone
          exact absurd (by simpa [← hroot] using hroot') (hnone e' he')
        · exact absurd hroot (by simp)

/-- A root that comes up has a first item, which resolved it. -/
theorem Orderly.exists_firstOf? {j : Journal} (h : j.Orderly) {root : ProjectRoot}
    (hroot : root ∈ j.roots) :
    ∃ e ∈ j, j.firstOf? root = some e ∧ ∃ result, e.outcome = .first root result := by
  obtain ⟨e', he', hroot'⟩ := mem_roots.mp hroot
  cases hfound : j.firstOf? root with
  | none =>
      have hnone := List.find?_eq_none.mp hfound e' he'
      exact absurd (decide_eq_true hroot') hnone
  | some e =>
      exact ⟨e, List.mem_of_find?_eq_some hfound, rfl,
        Item.outcome_of_first? (h.first?_of_firstOf? hfound)⟩

/-- A root is resolved in one turn only. -/
theorem Orderly.filter_first?_eq {j : Journal} (h : j.Orderly) {e : Item} {root : ProjectRoot}
    (he : e ∈ j) (hfirst : e.first? = some root) : j.filter (·.first? = some root) = [e] := by
  induction h with
  | nil => exact absurd he (by simp)
  | @concat j last hj hnew _ ih =>
      rw [List.filter_append]
      rcases List.mem_append.mp he with hold | hlast
      · have hother : last.first? ≠ some root := fun hsame =>
          hnew root hsame (mem_roots.mpr ⟨e, hold, Item.root?_of_first? hfirst⟩)
        rw [ih hold, List.filter_cons_of_neg (by simpa using hother), List.filter_nil,
          List.append_nil]
      · rw [List.mem_singleton.mp hlast] at hfirst ⊢
        have hnone : j.filter (·.first? = some root) = [] := by
          rw [List.filter_eq_nil_iff]
          intro e' he' hsame
          exact hnew root hfirst
            (mem_roots.mpr ⟨e', he', Item.root?_of_first? (of_decide_eq_true hsame)⟩)
        rw [hnone, List.filter_cons_of_pos (by simpa using hfirst), List.filter_nil,
          List.nil_append]

/-- Roots are resolved in the order in which they first come up. -/
theorem Orderly.filterMap_first?_eq {j : Journal} (h : j.Orderly) :
    j.filterMap Item.first? = j.roots.eraseDups := by
  induction h with
  | nil => rfl
  | @concat j e hj hnew hlater ih =>
      rw [List.filterMap_append, ih, roots_concat]
      cases houtcome : e.outcome with
      | first root result =>
          have hfresh : root ∉ j.roots := hnew root (Item.first?_of_outcome houtcome)
          simp [Item.first?, Item.root?, houtcome, eraseDups_concat_of_not_mem hfresh]
      | later root =>
          have hseen : root ∈ j.roots := hlater root houtcome
          simp [Item.first?, Item.root?, houtcome, eraseDups_concat_of_mem hseen]
      | own => simp [Item.first?, Item.root?, houtcome]
      | ignored => simp [Item.first?, Item.root?, houtcome]
      | rootless error => simp [Item.first?, Item.root?, houtcome]

/-- The record that a root was resolved for decides what is asked of it. -/
theorem Orderly.lookup_asked_eq {j : Journal} (h : j.Orderly) {e : Item} {root : ProjectRoot}
    {resolution : Resolution} (he : e ∈ j) (houtcome : e.outcome = .first root (.ok resolution)) :
    j.asked.lookup root = Conversion.properties? e.record resolution := by
  induction h with
  | nil => exact absurd he (by simp)
  | @concat j last hj hnew _ ih =>
      rw [asked_concat, List.lookup_append]
      rcases List.mem_append.mp he with hold | hlast
      · -- a root is resolved once, so the last record is not the first of an earlier root
        have hroot : root ∈ j.roots := mem_roots.mpr ⟨e, hold, Item.root?_of_outcome houtcome⟩
        have hother : last.asked?.toList.lookup root = none := by
          have hfresh : ∀ e' ∈ [last], ∀ resolution',
              e'.outcome ≠ .first root (.ok resolution') := by
            intro e' he' resolution' houtcome'
            rw [List.mem_singleton.mp he'] at houtcome'
            exact hnew root (Item.first?_of_outcome houtcome') hroot
          have hnone := lookup_asked_eq_none hfresh
          rwa [← List.nil_append [last], asked_concat] at hnone
        rw [ih hold, hother, Option.or_none]
      · have hlast := List.mem_singleton.mp hlast
        subst hlast
        have hfresh : root ∉ j.roots := hnew root (Item.first?_of_outcome houtcome)
        have hasked : e.asked? = (Conversion.properties? e.record resolution).map
            fun properties => (root, properties) := by
          rw [Item.asked?, houtcome]
        rw [lookup_asked_eq_none_of_fresh hfresh, Option.none_or, hasked]
        cases Conversion.properties? e.record resolution <;> simp

/-- The roots of the projects are distinct. -/
theorem Orderly.nodup_projects {j : Journal} (h : j.Orderly) :
    (j.projects.map (·.root)).Nodup := by
  induction h with
  | nil => exact List.nodup_nil
  | @concat j e hj hnew _ ih =>
      rw [projects_concat, List.map_append, List.map_map, List.nodup_append]
      refine ⟨ih, ?_, ?_⟩
      · cases project? (j ++ [e]) e <;> simp
      · intro root hold root' hadded hsame
        obtain ⟨p, hp, hroot⟩ := List.mem_map.mp hold
        obtain ⟨p', hp', rfl⟩ := List.mem_map.mp hadded
        have hmem : p.root ∈ j.roots := root_mem_roots hp
        -- only the first item of a root brings a project, and its root is new
        have hfirst : e.first? = some p'.root := by
          have hproject := Option.mem_toList.mp hp'
          unfold project? at hproject
          split at hproject
          · next houtcome =>
            rw [← Option.some.inj hproject]
            exact Item.first?_of_outcome houtcome
          · exact absurd hproject (by simp)
        exact hnew _ hfirst (hsame ▸ hroot ▸ hmem)

/-! ## What an outcome says of its record -/

/-- A record of the project lies in it, an ignored one is ignored, and a root contains its records
and was resolved for the first of them. -/
def Item.Valid {σ : Type} (provider : Provider σ) (project : ProjectRoot) (ignored : List String)
    (e : Item) : Prop :=
  match e.outcome with
  | .own => project.contains e.path = true
  | .ignored => project.contains e.path = false ∧ e.path ∈ ignored
  | .rootless _ => project.contains e.path = false ∧ e.path ∉ ignored
  | .first root result =>
    (project.contains e.path = false ∧ e.path ∉ ignored) ∧ root.contains e.path = true ∧
      ∃ s, (resolve provider root e.record.source e.record.revision e.record.label s).1 = result
  | .later root =>
    (project.contains e.path = false ∧ e.path ∉ ignored) ∧ root.contains e.path = true

/-- A record that has a root is neither the project's nor ignored, and lies in the root. -/
theorem Item.Valid.of_root? {σ : Type} {provider : Provider σ} {project : ProjectRoot}
    {ignored : List String} {e : Item} (h : e.Valid provider project ignored)
    {root : ProjectRoot} (hroot : e.root? = some root) :
    (project.contains e.path = false ∧ e.path ∉ ignored) ∧ root.contains e.path = true := by
  unfold Valid at h
  unfold root? at hroot
  split at hroot
  · next houtcome =>
    rw [houtcome] at h
    exact Option.some.inj hroot ▸ ⟨h.1, h.2.1⟩
  · next houtcome =>
    rw [houtcome] at h
    exact Option.some.inj hroot ▸ h
  · exact absurd hroot (by simp)

end Journal

end Relock
