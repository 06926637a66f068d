import Relock.Fault
import Relock.Manifest
import Relock.Toml.Document
import Relock.Toml.Layout

/-!
# The manifest file

How a manifest is kept in a file.

* `ManifestFile` is what the file says, entry by entry; `ofManifest` makes one of a manifest, and
  `toManifest` makes a manifest of one, unless an entry breaks a rule.
* `render` writes the file and `parse?` reads it.
-/

namespace Relock

/-- The first line of every generated file. -/
def generatedHeader : String :=
  "# This file is automatically generated by depmigrate.\n"

/-- What a manifest file says of one root. -/
structure ConstraintEntry where
  name : String
  /-- A version range. -/
  version : Option String
  branch : Option String
  source : Option String
deriving DecidableEq

/-- What a manifest file says. -/
structure ManifestFile where
  ignored : List String
  constraints : List ConstraintEntry
deriving DecidableEq

namespace ManifestFile

/-- What an entry can break. -/
inductive Error where
  | versionAndBranch (name : String)
  | invalidRange (range name : String)
  | duplicate (name : String)
deriving DecidableEq

/-- The error as it is passed on. -/
def Error.fault : Error → Fault
  | versionAndBranch name => .own ("constraint `" ++ name ++ "` sets both version and branch")
  | invalidRange range name =>
    .ofResource ("invalid version range `" ++ range ++ "` for `" ++ name ++ "`") .semver
  | duplicate name => .own ("duplicate constraint for `" ++ name ++ "`")

/-- The entry of a root. -/
def entryOf (root : ProjectRoot) (p : ProjectProperties) : ConstraintEntry where
  name := root.text
  version := match p.constraint with
    | some (.range r) => some r.render
    | _ => none
  branch := match p.constraint with
    | some (.branch name) => some name
    | _ => none
  source := p.source

/-- The file of a manifest. -/
def ofManifest (m : Manifest) : ManifestFile where
  ignored := m.ignored
  constraints := m.constraints.entries.map fun (root, p) => entryOf root p

/-- The constraint of an entry. -/
def constraint? (e : ConstraintEntry) : Except Error (Option Constraint) :=
  match e.version, e.branch with
  | some _, some _ => .error (.versionAndBranch e.name)
  | some range, none =>
    match Range.parse? range.toList with
    | some r => .ok (some (.range r))
    | none => .error (.invalidRange range e.name)
  | none, some branch => .ok (some (.branch branch))
  | none, none => .ok none

/-- Adds what an entry says to a manifest. -/
def addEntry (m : Manifest) (e : ConstraintEntry) : Except Error Manifest := do
  let constraint ← constraint? e
  match m.addConstraint? (.ofString e.name) ⟨constraint, e.source⟩ with
  | some m => return m
  | none => throw (.duplicate e.name)

/-- The manifest of a file. -/
def toManifest (f : ManifestFile) : Except Error Manifest := do
  let m ← f.constraints.foldlM addEntry .empty
  return f.ignored.foldl (fun m package => (m.ignore? package).getD m) m

/-! ## Text -/

/-- The settings of those texts that are given. -/
def givenTexts (settings : List (String × Option String)) : Toml.Settings :=
  settings.filterMap fun (key, value) => value.map fun value => (key, .text value)

/-- How a manifest file is laid out. -/
def layout (f : ManifestFile) : Toml.Layout where
  settings := if f.ignored.isEmpty then [] else [("ignored", .list f.ignored)]
  sectionName := "constraint"
  sections := f.constraints.map fun e =>
    givenTexts [("name", some e.name), ("version", e.version), ("branch", e.branch),
      ("source", e.source)]

def render (f : ManifestFile) : String :=
  generatedHeader ++ "\n" ++ f.layout.render

/-- The entry that a value describes. -/
def entry? (value : Toml) : Option ConstraintEntry := do
  match ← value.fields? ["name", "version", "branch", "source"] with
  | [name, version, branch, source] =>
    return ⟨← (← name).text?, ← Toml.optional? Toml.text? version,
      ← Toml.optional? Toml.text? branch, ← Toml.optional? Toml.text? source⟩
  | _ => none

/-- The file that a value describes. -/
def ofToml? (value : Toml) : Option ManifestFile := do
  match ← value.fields? ["ignored", "constraint"] with
  | [ignored, constraints] =>
    return ⟨← Toml.orDefault? [] (Toml.list? Toml.text?) ignored,
      ← Toml.orDefault? [] (Toml.list? entry?) constraints⟩
  | _ => none

def parse? (text : String) : Option ManifestFile :=
  (Toml.parse? text).bind ofToml?

end ManifestFile

end Relock
