import Relock.Files.Generated
import Relock.Proofs.Files
import Relock.Proofs.Toml.Document

/-!
# Generated files are read back

A manifest file is read as what was written to it, whatever texts it holds
(`ManifestFile.parse?_render`), and so is a lock file (`LockFile.parse?_render`): both are generated
documents with keys that are given once, and which key is missing says which text is not given.
-/

namespace Relock

namespace Toml

instance (key : String) : Decidable (IsBare key) :=
  decidable_of_iff (key.toList ≠ [] ∧ key.toList.all Statement.isKeyChar = true)
    (and_congr_right fun _ => List.all_eq_true)

/-- What is read of a list is the list if each item is read as it was. -/
theorem list?_map {α : Type} {item? : Toml → Option α} {write : α → Toml} {values : List α}
    (h : ∀ value ∈ values, item? (write value) = some value) :
    list? item? (.array (values.map write)) = some values := by
  show (values.map write).mapM item? = some values
  induction values with
  | nil => rfl
  | cons value values ih =>
      rw [List.map_cons, List.mapM_cons, h value List.mem_cons_self,
        ih fun value hvalue => h value (List.mem_cons_of_mem _ hvalue)]
      rfl

end Toml

open Toml (Layout)
open Toml.Layout (tomls)
open Toml.Statement (Says)

/-- The first line of a generated file is a comment. -/
theorem says_generatedHeader : Says generatedHeader.toList [] := by
  have hcomment : ∀ c ∈ " This file is automatically generated by depmigrate.".toList,
      Toml.Quoted.isLineChar c = true := List.all_eq_true.mp (by decide)
  exact .comment hcomment

namespace ManifestFile

/-- The keys of the texts that are given are among the keys. -/
theorem sublist_keys_givenTexts (settings : List (String × Option String)) :
    ((givenTexts settings).map (·.1)).Sublist (settings.map (·.1)) := by
  induction settings with
  | nil => exact List.Sublist.slnil
  | cons entry settings ih =>
      obtain ⟨key, value⟩ := entry
      cases value with
      | none => exact ih.cons key
      | some value => exact ih.cons_cons key

/-- An entry is read as it was written. -/
theorem entry?_givenTexts (e : ConstraintEntry) :
    entry? (.table (tomls (givenTexts [("name", some e.name), ("version", e.version),
      ("branch", e.branch), ("source", e.source)]))) = some e := by
  obtain ⟨name, version, branch, source⟩ := e
  cases version <;> cases branch <;> cases source <;> rfl

theorem sound_layout (f : ManifestFile) : f.layout.Sound := by
  have hbare : ∀ key ∈ "constraint" :: (["ignored"] ++ ["name", "version", "branch", "source"]),
      Toml.IsBare key := by decide
  have hname : "constraint" ∉ ["ignored"] := by decide
  refine Layout.sound_of_sublist ?_ ?_ hbare (by decide) (fun _ => hname) (by decide)
  · show ((if f.ignored.isEmpty then [] else [("ignored", .list f.ignored)] :
      Toml.Settings).map (·.1)).Sublist ["ignored"]
    split
    · exact List.nil_sublist _
    · exact List.Sublist.refl _
  · intro s hs
    obtain ⟨e, -, rfl⟩ := List.mem_map.mp hs
    exact sublist_keys_givenTexts _

theorem ignored_layout (f : ManifestFile) :
    Toml.orDefault? [] (Toml.list? Toml.text?) (f.layout.table.lookup "ignored") =
      some f.ignored := by
  obtain ⟨ignored, constraints⟩ := f
  have hlist : Toml.list? Toml.text? (.array (ignored.map .string)) = some ignored :=
    Toml.list?_map fun _ _ => rfl
  cases ignored with
  | nil => cases constraints <;> rfl
  | cons package ignored => exact hlist

theorem constraints_layout (f : ManifestFile) :
    Toml.orDefault? [] (Toml.list? entry?) (f.layout.table.lookup "constraint") =
      some f.constraints := by
  obtain ⟨ignored, constraints⟩ := f
  have hlist : Toml.list? entry? (.array ((constraints.map fun e =>
      givenTexts [("name", some e.name), ("version", e.version), ("branch", e.branch),
        ("source", e.source)]).map fun s => .table (tomls s))) = some constraints := by
    rw [List.map_map]
    exact Toml.list?_map fun e _ => entry?_givenTexts e
  cases constraints with
  | nil => cases ignored <;> rfl
  | cons e constraints => cases ignored <;> exact hlist

/-- A manifest file is read as what was written to it. -/
theorem parse?_render (f : ManifestFile) : parse? f.render = some f := by
  have hheader : Says (generatedHeader ++ "\n").toList [] := by
    rw [String.toList_append]
    exact says_generatedHeader.append .blank
  unfold parse? render
  rw [Toml.parse?_render f.sound_layout hheader (by decide)]
  show ((Toml.orDefault? [] (Toml.list? Toml.text?) (f.layout.table.lookup "ignored")).bind _ :
    Option ManifestFile) = _
  rw [ignored_layout]
  show ((Toml.orDefault? [] (Toml.list? entry?) (f.layout.table.lookup "constraint")).bind _ :
    Option ManifestFile) = _
  rw [constraints_layout]
  rfl

end ManifestFile

namespace LockFile

theorem entry?_entrySettings (e : LockedEntry) :
    entry? (.table (tomls (entrySettings e))) = some e := by
  obtain ⟨name, source, version, branch, revision, packages⟩ := e
  have hpackages : Toml.list? Toml.text? (.array (packages.map .string)) = some packages :=
    Toml.list?_map fun _ _ => rfl
  cases source <;> cases version <;> cases branch <;> cases revision <;>
    (show ((Toml.list? Toml.text? (.array (packages.map .string))).bind _ : Option LockedEntry) = _
     rw [hpackages]
     rfl)

/-- A lock file without projects has a key for their list, and no sections. -/
theorem sound_layout (f : LockFile) : f.layout.Sound := by
  have hbare : ∀ key ∈ "projects" :: (["inputs-digest", "projects"] ++
      ["name", "source", "version", "branch", "revision", "packages"]), Toml.IsBare key := by
    decide
  have hbare' : ∀ key ∈ "projects" :: (["inputs-digest"] ++
      ["name", "source", "version", "branch", "revision", "packages"]), Toml.IsBare key := by
    decide
  have hbelow : ∀ s ∈ f.layout.sections,
      (s.map (·.1)).Sublist ["name", "source", "version", "branch", "revision", "packages"] := by
    intro s hs
    obtain ⟨e, -, rfl⟩ := List.mem_map.mp hs
    rw [entrySettings, List.map_append]
    exact (ManifestFile.sublist_keys_givenTexts _).append (List.Sublist.refl ["packages"])
  obtain ⟨digest, projects⟩ := f
  have hdigest := ManifestFile.sublist_keys_givenTexts [("inputs-digest", digest)]
  -- without projects the empty list is a setting, and else each project is a section of that name
  cases projects with
  | nil =>
      refine Layout.sound_of_sublist ?_ hbelow hbare (by decide) (fun h => absurd rfl h) (by decide)
      show ((ManifestFile.givenTexts [("inputs-digest", digest)] ++
        [("projects", Toml.Setting.list [])]).map (·.1)).Sublist ["inputs-digest", "projects"]
      rw [List.map_append]
      exact hdigest.append (List.Sublist.refl ["projects"])
  | cons e projects =>
      have hname : "projects" ∉ ["inputs-digest"] := by decide
      refine Layout.sound_of_sublist ?_ hbelow hbare' (by decide) (fun _ => hname) (by decide)
      show ((ManifestFile.givenTexts [("inputs-digest", digest)] ++ [] : Toml.Settings).map
        (·.1)).Sublist ["inputs-digest"]
      rw [List.append_nil]
      exact hdigest

theorem inputsDigest_layout (f : LockFile) :
    Toml.optional? Toml.text? (f.layout.table.lookup "inputs-digest") = some f.inputsDigest := by
  obtain ⟨digest, projects⟩ := f
  cases digest <;> cases projects <;> rfl

theorem projects_layout (f : LockFile) :
    Toml.orDefault? [] (Toml.list? entry?) (f.layout.table.lookup "projects") =
      some f.projects := by
  obtain ⟨digest, projects⟩ := f
  have hlist : Toml.list? entry? (.array ((projects.map entrySettings).map fun s =>
      .table (tomls s))) = some projects := by
    rw [List.map_map]
    exact Toml.list?_map fun e _ => entry?_entrySettings e
  cases projects with
  | nil => cases digest <;> rfl
  | cons e projects => cases digest <;> exact hlist

theorem toml_render (f : LockFile) : Toml.parse? f.render = some (.table f.layout.table) := by
  have hnote : Says "# It is not intended for manual editing.\n".toList [] := by
    have hcomment : ∀ c ∈ " It is not intended for manual editing.".toList,
        Toml.Quoted.isLineChar c = true := List.all_eq_true.mp (by decide)
    exact .comment hcomment
  have hheader : Says (generatedHeader ++ "# It is not intended for manual editing.\n\n").toList
      [] := by
    rw [String.toList_append]
    exact says_generatedHeader.append (hnote.append .blank)
  exact Toml.parse?_render f.sound_layout hheader (by decide)

/-- A lock file is read as what was written to it. -/
theorem parse?_render (f : LockFile) : parse? f.render = some f := by
  unfold parse?
  rw [toml_render]
  show ((Toml.optional? Toml.text? (f.layout.table.lookup "inputs-digest")).bind _ :
    Option LockFile) = _
  rw [inputsDigest_layout]
  show ((Toml.orDefault? [] (Toml.list? entry?) (f.layout.table.lookup "projects")).bind _ :
    Option LockFile) = _
  rw [projects_layout]
  rfl

/-- A lock file passes for a manifest file that asks for nothing: it has none of its keys, and keys
that are not asked for do not matter. -/
theorem parse?_render_asManifest (f : LockFile) :
    ManifestFile.parse? f.render = some ⟨[], []⟩ := by
  have hignored : f.layout.table.lookup "ignored" = none := by
    obtain ⟨digest, projects⟩ := f
    cases digest <;> cases projects <;> rfl
  have hconstraints : f.layout.table.lookup "constraint" = none := by
    obtain ⟨digest, projects⟩ := f
    cases digest <;> cases projects <;> rfl
  unfold ManifestFile.parse?
  rw [toml_render]
  show ((Toml.orDefault? [] (Toml.list? Toml.text?) (f.layout.table.lookup "ignored")).bind _ :
    Option ManifestFile) = _
  rw [hignored]
  show ((Toml.orDefault? [] (Toml.list? ManifestFile.entry?)
    (f.layout.table.lookup "constraint")).bind _ : Option ManifestFile) = _
  rw [hconstraints]
  rfl

end LockFile

end Relock
