import Relock.Text.Blank
import Relock.Version.Basic

/-!
# Records

What a dependency tool recorded: one `ImportRecord` for each dependency, and in `LoadedConfig` all
that was read of a project's metadata.
-/

namespace Relock

/-- One dependency as it was recorded. -/
structure ImportRecord where
  /-- The import path of a package, which may lie below its repository's root. -/
  importPath : String
  /-- The revision that was pinned. -/
  revision : Revision
  /-- The tag or branch that was noted, if any. -/
  label : Option String
  /-- The fork or copy to be used instead, if any. -/
  source : Option String
deriving DecidableEq

namespace ImportRecord

/-- A text without the blanks at its ends, unless nothing is left. -/
def nonBlank? (text : String) : Option String :=
  let text := Text.trim text
  if text.isEmpty then none else some text

def new (importPath : String) (revision : String) : ImportRecord :=
  ⟨importPath, ⟨revision⟩, none, none⟩

/-- Notes a label; a blank one is none. -/
def withLabel (record : ImportRecord) (label : String) : ImportRecord :=
  { record with label := nonBlank? label }

/-- Notes a source; a blank one is none. -/
def withSource (record : ImportRecord) (source : String) : ImportRecord :=
  { record with source := nonBlank? source }

end ImportRecord

/-- All that was read of a project's metadata. -/
structure LoadedConfig where
  /-- The dependencies, in the order of the file. -/
  records : List ImportRecord
  /-- The packages that the metadata ignores. -/
  ignored : List String
  /-- The file that the revisions were read from. -/
  file : Option String
deriving DecidableEq

end Relock
