import Relock.Cli.Command
import Relock.Git.Repository

/-!
# The program

Looks at the files that a run may need, runs it on them as a value, and carries out what it wrote.
No means to talk to other hosts is built in, and so no repository can be reached.
-/

namespace Relock.Cli

/-- Puts a directory and those above it into a tree. -/
def putDirectories (names : List String) (f : Files) : Files :=
  (List.range names.length).foldl (fun f i => f.put (names.take (i + 1)) .directory) f

def realNames (path : String) : List String := (Path.parts path).filter (! Path.isIdle ·)

/-- Puts what is at a real path into a tree. -/
def lookAtReal (path : String) (f : Files) : IO Files := do
  let place := (← IO.currentDir) / path
  let names := realNames path
  if ← place.isDir then return putDirectories names f
  else return (putDirectories names.dropLast f).put names (.file (← IO.FS.readBinFile place))

/-- Puts what has a name in a directory into a tree, and says where it leads. -/
def lookAtName (dir name : String) (f : Files) : IO Files := do
  let parent := (← IO.FS.realPath dir).toString
  let place := (← IO.currentDir) / Path.join dir name
  let real := (← IO.FS.realPath place).toString
  let f ← lookAtReal real (putDirectories (realNames parent) f)
  match (← place.symlinkMetadata).type with
  | .symlink => return f.put (realNames parent ++ [name]) (.link real)
  | _ => return f

/-- Puts what is along the parts of a path into a tree, up to one that is not there. -/
def lookAlong (dir : String) (f : Files) : List String → IO Files
  | [] => return f
  | part :: parts =>
    if Path.isIdle part then lookAlong dir f parts
    else if part = ".." then lookAlong (Path.join dir part) f parts
    else do
      match ← (lookAtName dir part f).toBaseIO with
      | .ok f => lookAlong (Path.join dir part) f parts
      | .error _ => return f

/-- Puts what is along a path into a tree. -/
def lookAt (f : Files) (path : String) : IO Files :=
  lookAlong (if Path.isAbsolute path then "/" else ".") f (Path.parts path)

/-- Carries out what was written to a path. -/
def carryOver (before after : Files) (path : String) : IO Unit := do
  match after.readText? path with
  | some text => if before.readText? path ≠ some text then IO.FS.writeFile path text
  | none => return

/-- What the program finds when it starts. -/
def readSetup : IO Setup := do
  let noColor ← IO.getEnv "NO_COLOR"
  return ⟨⟨← IO.getEnv "HOME", ← IO.getEnv "GOPATH"⟩, ← IO.getEnv "DEPMIGRATE_ROOT",
    (← IO.FS.realPath (← IO.currentDir)).toString, ← (← IO.getStderr).isTty,
    noColor.any (! ·.isEmpty)⟩

/-- Runs the program on the files that it may need. -/
def runOnFiles (arguments : List String) : IO Ending := do
  let setup ← readSetup
  let paths := match Request.ofArguments arguments with
    | .ok r => pathsLookedAt setup r
    | .error _ => []
  let files ← (setup.dir :: paths).foldlM lookAt { Files.empty with current := realNames setup.dir }
  let ending := run Git.Host.access setup arguments files ⟨files, []⟩
  for path in paths do carryOver files ending.files path
  return ending

end Relock.Cli

/-- The program. -/
def main (arguments : List String) : IO UInt32 := do
  let ending ← Relock.Cli.runOnFiles arguments
  IO.eprint ending.errorOutput
  IO.print ending.output
  return ending.code.toUInt32
