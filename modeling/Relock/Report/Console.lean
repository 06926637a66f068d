import Relock.Report.Shell

/-!
# Consoles

A shell at work. `Shell.texts` shows notices that were collected; a console is told one thing after
the other while something is going on, and each time it looks at its verbosity and writes the text
or keeps it back. The progress bar is left out, and so is whether the shell writes to a terminal on
which to draw one: it is drawn beside the texts and taken away again.

* `status`, `warn`, `detail` and `block` are the ways to tell it something.
* `hear` tells it a notice, in the way that the notice asks for.
-/

namespace Relock

/-- A shell at work. -/
structure Console where
  shell : Shell
  /-- The texts written so far. -/
  written : List String
  /-- The warnings counted so far. -/
  warnings : Nat
deriving DecidableEq

namespace Console

def opened (shell : Shell) : Console := ⟨shell, [], 0⟩

def isQuiet (k : Console) : Bool :=
  k.shell.verbosity = .quiet

def isVerbose (k : Console) : Bool :=
  k.shell.verbosity = .verbose

/-- Writes a text, unless all is thrown away. -/
def write (text : String) (k : Console) : Console :=
  if k.shell.discards then k else { k with written := k.written ++ [text] }

/-- Writes a status line, unless nothing is to be written. -/
def status (status : Status) (text : String) (k : Console) : Console :=
  if k.isQuiet then k else k.write (k.shell.statusLine status text)

/-- Counts a warning and writes it. -/
def warn (text : String) (k : Console) : Console :=
  status .warning text { k with warnings := k.warnings + 1 }

/-- Writes a detail, if details are to be written. -/
def detail (text : String) (k : Console) : Console :=
  if k.isVerbose then k.status .info text else k

/-- Writes a text as it is, unless nothing is to be written. -/
def block (text : String) (k : Console) : Console :=
  if k.isQuiet then k else k.write text

def hear (k : Console) : Notice → Console
  | .status status text => k.status status text
  | .warning text => k.warn text
  | .detail text => k.detail text
  | .block text => k.block text
  | .explanation diagnostic =>
    if k.isVerbose then k.block (diagnostic.render k.shell.painted) else k
  | .trace _ _ => k

def hearAll (k : Console) (notices : List Notice) : Console :=
  notices.foldl hear k

end Console

end Relock
