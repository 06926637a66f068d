import Relock.Toml.Quoted

/-!
# The layout of generated TOML

A generated document is a list of settings, some of them sections: a setting is a text or a list of
texts, and the sections of one name are an array of tables. `Layout.render` writes the settings
first and the sections after them, each with a blank line before it unless the document begins
with it. A list of two or more texts has a line for each.
-/

namespace Relock.Toml

/-- A value that a generated document sets. -/
inductive Setting where
  | text (value : String)
  | list (values : List String)
deriving DecidableEq

/-- The keys of a table and their values, in order. -/
abbrev Settings := List (String × Setting)

/-- A generated document. -/
structure Layout where
  settings : Settings
  /-- The name of the sections. -/
  sectionName : String
  sections : List Settings

namespace Layout

/-- Writes a value. -/
def value : Setting → List Char
  | .text value => Quoted.quote value
  | .list [] => ['[', ']']
  | .list [value] => '[' :: Quoted.quote value ++ [']']
  | .list values =>
    '[' :: values.flatMap (fun value => "\n    ".toList ++ Quoted.quote value ++ [',']) ++
      ['\n', ']']

def lines (settings : Settings) : List Char :=
  settings.flatMap fun (key, v) => key.toList ++ " = ".toList ++ value v ++ ['\n']

def sectionLines (name : String) (settings : Settings) : List Char :=
  "[[".toList ++ name.toList ++ "]]\n".toList ++ lines settings

/-- Writes sections with a blank line between any two of them, and one before the first if something
stands before it. -/
def sectionsLines (name : String) : Bool → List Settings → List Char
  | _, [] => []
  | isFirst, s :: rest =>
    (if isFirst then [] else ['\n']) ++ sectionLines name s ++ sectionsLines name false rest

def render (d : Layout) : String :=
  String.ofList (lines d.settings ++ sectionsLines d.sectionName d.settings.isEmpty d.sections)

end Layout

end Relock.Toml
