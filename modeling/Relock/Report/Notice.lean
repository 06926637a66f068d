import Relock.Report.Diagnostic

/-!
# Notices

What an operation has to tell while it runs, as data. Who shows a notice, and whether it is shown
at all, is decided by the `Shell` and by the trace filter, so no operation depends on how much is
shown of it.
-/

namespace Relock

/-- The word in front of a status line. -/
inductive Status where
  | detected
  | locked
  | finished
  | wrote
  | converting
  | info
  | ignored
  | skipped
  | warning
deriving DecidableEq

namespace Status

/-- The text of a status. -/
def label : Status → String
  | detected => "Detected"
  | locked => "Locked"
  | finished => "Finished"
  | wrote => "Wrote"
  | converting => "Converting"
  | info => "Info"
  | ignored => "Ignored"
  | skipped => "Skipped"
  | warning => "Warning"

/-- The terminal attributes of a status: green for what is done, cyan for what is going on, blue
for information, yellow for what deserves a look. -/
def paint : Status → String
  | detected | locked | finished | wrote => "1;32"
  | converting => "1;36"
  | info => "1;34"
  | ignored | skipped | warning => "1;33"

end Status

/-- How much a trace line matters. -/
inductive TraceLevel where
  | debug
  | info
  | warn
deriving DecidableEq

namespace TraceLevel

/-- The word in front of a trace line, at its width of five. -/
def label : TraceLevel → String
  | debug => "DEBUG"
  | info => " INFO"
  | warn => " WARN"

/-- The terminal attributes of that word. -/
def paint : TraceLevel → String
  | debug => "34"
  | info => "32"
  | warn => "33"

end TraceLevel

/-- One thing to tell. -/
inductive Notice where
  /-- A status line. -/
  | status (status : Status) (text : String)
  /-- A warning, which is counted whether it is shown or not. -/
  | warning (text : String)
  /-- A detail for those who ask for details. -/
  | detail (text : String)
  /-- Text to be shown as it is. -/
  | block (text : String)
  /-- The diagnostic behind a warning, for those who ask for details. -/
  | explanation (diagnostic : Diagnostic)
  /-- A trace line, which the shell leaves to the trace filter. -/
  | trace (level : TraceLevel) (text : String)
deriving DecidableEq

namespace Notice

/-- Whether a notice is a warning. -/
def isWarning : Notice → Bool
  | warning _ => true
  | _ => false

end Notice

end Relock
