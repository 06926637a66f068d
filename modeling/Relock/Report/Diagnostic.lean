/-!
# Diagnostics

What a user is told about one problem: a message, the file it was found in, notes and suggestions.
`Diagnostic.render` lays it out for a terminal, painted or plain.
-/

namespace Relock

/-- An error ends a conversion; a warning only leaves one dependency out. -/
inductive Severity where
  | error
  | warning
deriving DecidableEq

namespace Severity

/-- The word at the head of a diagnostic. -/
def label : Severity → String
  | error => "error"
  | warning => "warning"

/-- The terminal attributes of that word. -/
def paint : Severity → String
  | error => "1;31"
  | warning => "1;33"

end Severity

/-- A report about one problem. -/
structure Diagnostic where
  severity : Severity
  message : String
  /-- The file the problem was found in. -/
  location : Option String
  notes : List String
  suggestions : List String
deriving DecidableEq

namespace Diagnostic

/-- A report that the conversion ends. -/
def error (message : String) : Diagnostic := ⟨.error, message, none, [], []⟩

/-- A report that a dependency is left out. -/
def warning (message : String) : Diagnostic := ⟨.warning, message, none, [], []⟩

def withNote (d : Diagnostic) (note : String) : Diagnostic :=
  { d with notes := d.notes ++ [note] }

def withSuggestion (d : Diagnostic) (suggestion : String) : Diagnostic :=
  { d with suggestions := d.suggestions ++ [suggestion] }

/-- Points at the file the problem was found in. -/
def withLocation (d : Diagnostic) (path : String) : Diagnostic :=
  { d with location := some path }

/-- Text in terminal attributes, or as it is. -/
def paintText (painted : Bool) (attributes text : String) : String :=
  if painted then "\x1b[" ++ attributes ++ "m" ++ text ++ "\x1b[0m" else text

/-- The suggestions, one a line, numbered from `first`. -/
def numbered (first : Nat) : List String → String
  | [] => ""
  | suggestion :: rest =>
    "  " ++ toString first ++ ". " ++ suggestion ++ "\n" ++ numbered (first + 1) rest

/-- The help at the end: a single suggestion stands on the help line, several are numbered
below it. -/
def renderHelp (help : String) : List String → String
  | [] => ""
  | [suggestion] => "\n" ++ help ++ ": " ++ suggestion ++ "\n"
  | suggestions => "\n" ++ help ++ ": consider:\n" ++ numbered 1 suggestions

/-- The lines of a diagnostic. -/
def render (painted : Bool) (d : Diagnostic) : String :=
  paintText painted d.severity.paint d.severity.label ++ ": " ++ d.message ++ "\n" ++
    d.location.elim "" (fun path => "  --> " ++ path ++ "\n") ++
    String.join (d.notes.map fun note => "  = " ++ note ++ "\n") ++
    renderHelp (paintText painted "1;32" "help") d.suggestions

end Diagnostic

end Relock
