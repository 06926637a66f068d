import Relock.Report.Notice

/-!
# The shell

How notices become text: `Shell.text?` is what a shell writes for one notice, `Shell.log` what it
writes for a list of them, and `warningCount` is how many warnings it has counted.

A quiet shell writes nothing. A normal one writes status lines, warnings and blocks. A verbose one
writes details and explanations too.
-/

namespace Relock

/-- How much is shown. -/
inductive Verbosity where
  | quiet
  | normal
  | verbose
deriving DecidableEq

namespace Verbosity

/-- The name of a verbosity. -/
def label : Verbosity → String
  | quiet => "Quiet"
  | normal => "Normal"
  | verbose => "Verbose"

/-- The verbosity that two flags ask for; quiet wins. -/
def ofFlags (quiet verbose : Bool) : Verbosity :=
  if quiet then .quiet else if verbose then .verbose else .normal

end Verbosity

/-- When output is painted. -/
inductive ColorChoice where
  /-- If it goes to a terminal. -/
  | auto
  | always
  | never
deriving DecidableEq

namespace ColorChoice

/-- Reads a choice in letters of any case. -/
def parse? (text : String) : Option ColorChoice :=
  let lower := String.ofList (text.toList.map Char.toLower)
  if lower = "auto" then some .auto
  else if lower = "always" then some .always
  else if lower = "never" then some .never
  else none

/-- What is said of a text that is no choice. -/
def invalidMessage (text : String) : String :=
  "invalid color choice '" ++ text ++ "'; expected 'auto', 'always', or 'never'"

/-- Whether output is painted, given whether it goes to a terminal. -/
def paints (terminal : Bool) : ColorChoice → Bool
  | auto => terminal
  | always => true
  | never => false

end ColorChoice

/-- Where and how notices are shown. -/
structure Shell where
  verbosity : Verbosity
  painted : Bool
  /-- Whether all that is written is thrown away. -/
  discards : Bool
deriving DecidableEq

namespace Shell

def plain (verbosity : Verbosity) : Shell := ⟨verbosity, false, false⟩

/-- A shell on standard error, which is a terminal or not. -/
def onStandardError (terminal : Bool) (verbosity : Verbosity) (color : ColorChoice) : Shell :=
  ⟨verbosity, color.paints terminal, false⟩

/-- A verbose shell that throws everything away. -/
def sink : Shell := ⟨.verbose, false, true⟩

def statusWidth : Nat := 12

/-- A status line. -/
def statusLine (shell : Shell) (status : Status) (text : String) : String :=
  let word := String.ofList (List.replicate (statusWidth - status.label.length) ' ') ++ status.label
  Diagnostic.paintText shell.painted status.paint word ++ " " ++ text ++ "\n"

/-- What a notice is to a shell that writes all of them; trace lines are not the shell's. -/
def fullText? (shell : Shell) : Notice → Option String
  | .status status text => some (shell.statusLine status text)
  | .warning text => some (shell.statusLine .warning text)
  | .detail text => some (shell.statusLine .info text)
  | .block text => some text
  | .explanation diagnostic => some (diagnostic.render shell.painted)
  | .trace _ _ => none

/-- Whether a verbosity shows a notice. -/
def shows : Verbosity → Notice → Bool
  | .quiet, _ => false
  | .normal, .detail _ => false
  | .normal, .explanation _ => false
  | .normal, _ => true
  | .verbose, _ => true

/-- What the shell writes for a notice. -/
def text? (shell : Shell) (notice : Notice) : Option String :=
  if !shell.discards && shows shell.verbosity notice then shell.fullText? notice else none

def texts (shell : Shell) (notices : List Notice) : List String :=
  notices.filterMap shell.text?

def log (shell : Shell) (notices : List Notice) : String :=
  String.join (shell.texts notices)

def warningCount (notices : List Notice) : Nat :=
  notices.countP Notice.isWarning

/-- An account of the settings on one line. -/
def describe (shell : Shell) : String :=
  "Shell \x7b verbosity: " ++ shell.verbosity.label ++ ", use_color: " ++
    toString shell.painted ++ ", .. \x7d"

end Shell

end Relock
