import Relock.Lock
import Relock.ManifestFile

/-!
# The lock file

How a lock is kept in a file.

* `LockFile` is what the file says, entry by entry; `ofLock` makes one of a lock, and `toLock` makes
  a lock of one, unless an entry breaks a rule.
* `render` writes the file and `parse?` reads it.

A file does not say whether a branch is the default one.
-/

namespace Relock

/-- What a lock file says of one root. -/
structure LockedEntry where
  name : String
  source : Option String
  /-- A tag. -/
  version : Option String
  branch : Option String
  revision : Option String
  packages : List String
deriving DecidableEq

/-- What a lock file says. -/
structure LockFile where
  inputsDigest : Option String
  projects : List LockedEntry
deriving DecidableEq

namespace LockFile

/-- What an entry can break. -/
inductive Error where
  | versionAndBranch (name : String)
  | unversioned (name : String)
  | duplicate (name : String)
deriving DecidableEq

/-- The error as it is passed on. -/
def Error.fault : Error → Fault
  | versionAndBranch name => .own ("locked `" ++ name ++ "` sets both version and branch")
  | unversioned name => .own ("locked `" ++ name ++ "` has neither a version nor a revision")
  | duplicate name => .own ("duplicate lock entry for `" ++ name ++ "`")

/-- The tag that an entry names. -/
def tagOf? : Version → Option String
  | .branch _ _ => none
  | .semver _ label => some label
  | .tag name => some name

/-- The branch that an entry names. -/
def branchOf? : Version → Option String
  | .branch name _ => some name
  | _ => none

/-- The entry of a project. -/
def entryOf (p : LockedProject) : LockedEntry where
  name := p.root.text
  source := p.source
  version := p.version.version?.bind tagOf?
  branch := p.version.version?.bind branchOf?
  revision := p.version.revision?.map (·.text)
  packages := p.packages

/-- The file of a lock. -/
def ofLock (l : Lock) : LockFile where
  inputsDigest := l.inputsDigest
  projects := l.projects.map entryOf

/-- The version that an entry names. -/
def label? (e : LockedEntry) : Except Error (Option Version) :=
  match e.version, e.branch with
  | some _, some _ => .error (.versionAndBranch e.name)
  | some tag, none => .ok (some (Version.ofTag tag))
  | none, some branch => .ok (some (.branch branch false))
  | none, none => .ok none

/-- The version that an entry locks. A revision without characters is none. -/
def lockedVersion (e : LockedEntry) : Except Error LockedVersion := do
  let label ← label? e
  let revision := (e.revision.filter fun text => !text.isEmpty).map Revision.mk
  match label, revision with
  | some label, some revision => return .paired ⟨label, revision⟩
  | some label, none => return .unpaired label
  | none, some revision => return .bare revision
  | none, none => throw (.unversioned e.name)

/-- The project of an entry. -/
def toProject (e : LockedEntry) : Except Error LockedProject := do
  let version ← lockedVersion e
  return LockedProject.addPackages ⟨.ofString e.name, e.source, version, []⟩ e.packages

/-- Adds what an entry says to a lock. -/
def addEntry (l : Lock) (e : LockedEntry) : Except Error Lock := do
  match l.addProject? (← toProject e) with
  | some l => return l
  | none => throw (.duplicate e.name)

def toLock (f : LockFile) : Except Error Lock :=
  f.projects.foldlM addEntry ⟨[], f.inputsDigest⟩

/-! ## Text -/

/-- The settings of an entry. -/
def entrySettings (e : LockedEntry) : Toml.Settings :=
  ManifestFile.givenTexts [("name", some e.name), ("source", e.source), ("version", e.version),
    ("branch", e.branch), ("revision", e.revision)] ++ [("packages", .list e.packages)]

/-- How a lock file is laid out: projects are sections, unless there are none. -/
def layout (f : LockFile) : Toml.Layout where
  settings := ManifestFile.givenTexts [("inputs-digest", f.inputsDigest)] ++
    if f.projects.isEmpty then [("projects", .list [])] else []
  sectionName := "projects"
  sections := f.projects.map entrySettings

def render (f : LockFile) : String :=
  generatedHeader ++ "# It is not intended for manual editing.\n\n" ++ f.layout.render

/-- The entry that a value describes. -/
def entry? (value : Toml) : Option LockedEntry := do
  match ← value.fields? ["name", "source", "version", "branch", "revision", "packages"] with
  | [name, source, version, branch, revision, packages] =>
    return ⟨← (← name).text?, ← Toml.optional? Toml.text? source,
      ← Toml.optional? Toml.text? version, ← Toml.optional? Toml.text? branch,
      ← Toml.optional? Toml.text? revision,
      ← Toml.orDefault? [] (Toml.list? Toml.text?) packages⟩
  | _ => none

/-- The file that a value describes. -/
def ofToml? (value : Toml) : Option LockFile := do
  match ← value.fields? ["inputs-digest", "projects"] with
  | [digest, projects] =>
    return ⟨← Toml.optional? Toml.text? digest, ← Toml.orDefault? [] (Toml.list? entry?) projects⟩
  | _ => none

def parse? (text : String) : Option LockFile :=
  (Toml.parse? text).bind ofToml?

end LockFile

end Relock
