import Relock.Record
import Relock.Yaml.Fields

/-!
# Glide metadata

The file `glide.yaml`, which names the dependencies of a project and of its tests, and the file
`glide.lock`, which pins them to revisions if it is there.

* `GlideFile` and `GlideLock` are what the two files say.
* `GlideFile.records` joins them: each dependency takes the revision from the last entry of its name
  in the lock. Without an entry, a version that looks like a commit is the revision.
-/

namespace Relock

/-- A dependency in either file. -/
structure GlideEntry where
  name : String
  /-- A branch, a tag, a range or a revision; in the lock, a revision. -/
  version : String
  repository : String
deriving DecidableEq

/-- The dependencies of a project. -/
structure GlideFile where
  /-- The import path of the project. -/
  name : String
  ignored : List String
  excludedDirs : List String
  imports : List GlideEntry
  testImports : List GlideEntry
deriving DecidableEq

/-- The revisions of the dependencies. -/
structure GlideLock where
  imports : List GlideEntry
  testImports : List GlideEntry
deriving DecidableEq

namespace GlideEntry

/-- The entry that a node describes, its name being in the field `nameField`. -/
def ofNode? (nameField : String) (d : Yaml.Document) (node : Yaml.Node) : Option GlideEntry := do
  match ← d.fields? [nameField, "version", "repo"] node with
  | [name, version, repository] =>
    let text? := Yaml.Document.orDefault? "" d.text?
    return ⟨← text? name, ← text? version, ← text? repository⟩
  | _ => none

end GlideEntry

namespace GlideLock

def path : String := "glide.lock"

/-- The lock that a document describes. -/
def ofDocument? (d : Yaml.Document) : Option GlideLock := do
  match ← d.fields? ["imports", "testImports"] d.root with
  | [imports, testImports] =>
    let entries? := Yaml.Document.orDefault? [] (d.list? (GlideEntry.ofNode? "name" d))
    return ⟨← entries? imports, ← entries? testImports⟩
  | _ => none

def parse? (text : String) : Option GlideLock :=
  (Yaml.Document.parse? text).bind ofDocument?

/-- All entries, those of the tests last. -/
def entries (l : GlideLock) : List GlideEntry :=
  l.imports ++ l.testImports

end GlideLock

namespace GlideFile

def path : String := "glide.yaml"

/-- The metadata that a document describes. -/
def ofDocument? (d : Yaml.Document) : Option GlideFile := do
  match ← d.fields? ["package", "ignore", "excludeDirs", "import", "testImport"] d.root with
  | [name, ignored, excludedDirs, imports, testImports] =>
    let texts? := Yaml.Document.orDefault? [] (d.list? d.text?)
    let entries? := Yaml.Document.orDefault? [] (d.list? (GlideEntry.ofNode? "package" d))
    return ⟨← Yaml.Document.orDefault? "" d.text? name, ← texts? ignored, ← texts? excludedDirs,
      ← entries? imports, ← entries? testImports⟩
  | _ => none

def parse? (text : String) : Option GlideFile :=
  (Yaml.Document.parse? text).bind ofDocument?

/-- All dependencies, those of the tests last. -/
def entries (f : GlideFile) : List GlideEntry :=
  f.imports ++ f.testImports

/-- The first of two texts, unless it is blank. -/
def firstNonBlank (a b : String) : String :=
  if Text.isBlankText a then b else a

/-- What a dependency records, given its entry in the lock. -/
def record (e : GlideEntry) (pin : Option GlideEntry) : ImportRecord :=
  let version := Text.trim e.version
  let isCommit := Revision.looksLikeCommit version
  let (revision, source) := match pin with
    | some pin => (pin.version, firstNonBlank e.repository pin.repository)
    | none => (if isCommit then version else "", e.repository)
  let label := if isCommit then "" else version
  ((ImportRecord.new e.name revision).withLabel label).withSource source

/-- The entry of a name that counts: the last one. -/
def pin? (lock : Option GlideLock) (name : String) : Option GlideEntry :=
  lock.bind fun l => l.entries.reverse.find? (·.name = name)

def records (f : GlideFile) (lock : Option GlideLock) : List ImportRecord :=
  f.entries.map fun e => record e (pin? lock e.name)

end GlideFile

end Relock
