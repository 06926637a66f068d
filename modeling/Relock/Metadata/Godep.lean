import Relock.Json.Fields
import Relock.Json.Reader
import Relock.Record

/-!
# Godep metadata

The file `Godeps/Godeps.json`: the project's own import path and a list of packages, each with its
revision and, as a comment, the description of the revision by the nearest tag. Whatever is missing
is empty, so that a conversion and not the reader reports which package is broken.
-/

namespace Relock

/-- A package in godep metadata. -/
structure GodepPackage where
  importPath : String
  revision : String
  comment : String
deriving DecidableEq

/-- Godep metadata. -/
structure GodepFile where
  /-- The import path of the project. -/
  importPath : String
  packages : List GodepPackage
deriving DecidableEq

namespace GodepPackage

/-- The package that a value describes. -/
def ofJson? (value : Json) : Option GodepPackage := do
  match ← value.fields? [["ImportPath"], ["Rev"], ["Comment"]] with
  | [path, revision, comment] =>
    let text? := Json.orDefault? "" Json.text?
    return ⟨← text? path, ← text? revision, ← text? comment⟩
  | _ => none

def record (p : GodepPackage) : ImportRecord :=
  (ImportRecord.new p.importPath p.revision).withLabel p.comment

end GodepPackage

namespace GodepFile

def path : String := "Godeps/Godeps.json"

/-- The metadata that a value describes. -/
def ofJson? (value : Json) : Option GodepFile := do
  match ← value.fields? [["ImportPath"], ["Deps", "Imports"]] with
  | [path, packages] =>
    return ⟨← Json.orDefault? "" Json.text? path,
      ← Json.orDefault? [] (Json.list? GodepPackage.ofJson?) packages⟩
  | _ => none

def parse? (text : String) : Option GodepFile :=
  (Json.parse? text).bind ofJson?

def records (f : GodepFile) : List ImportRecord :=
  f.packages.map GodepPackage.record

end GodepFile

end Relock
