import Relock.Report.Shell

/-!
# What a command shows

A command has a shell for what it tells of its work, and next to it trace lines, each with its level
in front. Trace lines of debugging are shown on demand, and the others always, whatever the shell
keeps to itself.
-/

namespace Relock

/-- What a command shows, and how. -/
structure Screen where
  shell : Shell
  /-- Whether trace lines of debugging are shown. -/
  debugging : Bool
  /-- Whether the levels of trace lines are painted. -/
  painted : Bool
deriving DecidableEq

namespace Screen

/-- A character of a trace line. One that could steer a terminal is shown as its code instead. -/
def shown (c : Char) : List Char :=
  if "\x1b\x07\x08\x0c\x7f".toList.contains c then
    '\\' :: 'x' :: (Nat.toDigits 16 (c.toNat / 16) ++ Nat.toDigits 16 (c.toNat % 16))
  else if 0x80 ≤ c.toNat ∧ c.toNat ≤ 0x9f then
    "\\u\x7b".toList ++ Nat.toDigits 16 c.toNat ++ ['\x7d']
  else [c]

/-- A trace line. -/
def traceLine (screen : Screen) (level : TraceLevel) (text : String) : String :=
  Diagnostic.paintText screen.painted level.paint level.label ++ " " ++
    String.ofList (text.toList.flatMap shown) ++ "\n"

/-- What is shown of a notice. -/
def text? (screen : Screen) : Notice → Option String
  | .trace level text =>
    if level = .debug ∧ !screen.debugging then none else some (screen.traceLine level text)
  | notice => screen.shell.text? notice

def log (screen : Screen) (notices : List Notice) : String :=
  String.join (notices.filterMap screen.text?)

end Screen

end Relock
