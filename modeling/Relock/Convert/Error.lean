import Relock.Record
import Relock.Report.Diagnostic

/-!
# Metadata that cannot be converted

A dependency without an import path, or without a revision, ends a conversion before anything is
resolved. `LoadedConfig.error?` finds the first such dependency.
-/

namespace Relock

/-- What is wrong with the metadata. -/
inductive ConvertError where
  /-- The dependency at a position, counted from one, has no import path. -/
  | emptyImportPath (position : Nat) (file : Option String)
  /-- The dependency of a path is pinned to no revision. -/
  | emptyRevision (importPath : String) (file : Option String)
deriving DecidableEq

namespace ConvertError

/-- The text of the error. -/
def message : ConvertError → String
  | emptyImportPath position _ =>
    "dependency #" ++ toString position ++ " has an empty import path"
  | emptyRevision importPath _ => "dependency `" ++ importPath ++ "` has an empty revision"

/-- The name by which documentation refers to the error. -/
def code : ConvertError → String
  | emptyImportPath _ _ => "depmigrate::convert::empty_import_path"
  | emptyRevision _ _ => "depmigrate::convert::empty_revision"

/-- What documentation has to say to the error. -/
def help : ConvertError → String
  | emptyImportPath _ _ => "Every dependency entry must name the package it imports"
  | emptyRevision _ _ => "Regenerate the legacy lock so every dependency is pinned to a revision"

/-- The file that the metadata was read from. -/
def file : ConvertError → Option String
  | emptyImportPath _ file => file
  | emptyRevision _ file => file

/-- What to tell a user about the error, the file aside. -/
def plainDiagnostic (e : ConvertError) : Diagnostic :=
  match e with
  | emptyImportPath position _ =>
    Diagnostic.error e.message
      |>.withNote ("entry " ++ toString position ++ " of the legacy metadata")
      |>.withSuggestion "Remove the entry or fill in its import path"
  | emptyRevision importPath _ =>
    Diagnostic.error e.message
      |>.withNote ("`" ++ importPath ++ "` is not pinned to any commit")
      |>.withSuggestion "Regenerate the legacy lock so every dependency is pinned"

def diagnostic (e : ConvertError) : Diagnostic :=
  e.file.elim e.plainDiagnostic e.plainDiagnostic.withLocation

end ConvertError

namespace LoadedConfig

/-- What is wrong with a record that stands at a position. -/
def recordError? (file : Option String) (position : Nat) (record : ImportRecord) :
    Option ConvertError :=
  if Text.isBlankText record.importPath then some (.emptyImportPath position file)
  else if record.revision.isEmpty then some (.emptyRevision record.importPath file)
  else none

/-- What is wrong with the first bad one of the records that stand from a position on. -/
def recordsError? (file : Option String) (position : Nat) : List ImportRecord → Option ConvertError
  | [] => none
  | record :: records =>
    (recordError? file position record).or (recordsError? file (position + 1) records)

/-- What is wrong with the first bad record, if one is bad. -/
def error? (config : LoadedConfig) : Option ConvertError :=
  recordsError? config.file 1 config.records

end LoadedConfig

end Relock
