import Relock.Fault
import Relock.Files.Path

/-!
# Files

A tree of directories, files and links, as a value: each entry is kept under the names that lead to
it from the top.

* `place?` is where a path leads: links on the way are followed, and so is one at the end.
* `contains`, `isFile`, `readText?` and `realPath?` tell of the entry there, and `write?` puts a
  file there, through a link that leads to nothing yet if need be.
* `read` and `write` do the same and say what was to be read or written if they fail.

Of the reasons for which a system refuses to write, only those are here that lie in the tree itself.
-/

namespace Relock

/-- What a name stands for. -/
inductive Entry where
  | directory
  | file (content : ByteArray)
  /-- A link to a path, which begins in the directory of the link unless it begins at the top. -/
  | link (target : String)

/-- A tree of files. -/
structure Files where
  /-- The entries by the names that lead to them; the top has none. -/
  entries : List (List String × Entry)
  /-- The directory in which a path begins that does not begin at the top. -/
  current : List String

/-- Where a path leads. -/
inductive Place where
  /-- To a directory. -/
  | directory (names : List String)
  /-- To a file. -/
  | file (names : List String) (content : ByteArray)
  /-- To a directory in which nothing has the last name. -/
  | vacant (names : List String)

namespace Files

def empty : Files := ⟨[], []⟩

def entry? (f : Files) (names : List String) : Option Entry :=
  if names.isEmpty then some .directory else f.entries.lookup names

def put (names : List String) (entry : Entry) (f : Files) : Files :=
  { f with entries := (names, entry) :: f.entries.filter (·.1 ≠ names) }

def maxLinks : Nat := 40

/-- Where the parts of a path lead from the directory at `names`, along at most `links` links. -/
def walk (f : Files) : Nat → List String → List String → Option Place
  | _, names, [] => some (.directory names)
  | links, names, part :: parts =>
    if Path.isIdle part then walk f links names parts
    else if part = ".." then walk f links names.dropLast parts
    else
      let names' := names ++ [part]
      match f.entry? names', links with
      | some .directory, links => walk f links names' parts
      | some (.file content), _ => if parts.isEmpty then some (.file names' content) else none
      | some (.link _), 0 => none
      | some (.link target), links + 1 =>
        let start := if Path.isAbsolute target then [] else names
        walk f links start (Path.parts target ++ parts)
      | none, _ => if parts.isEmpty then some (.vacant names') else none
termination_by links _ parts => (links, parts.length)

/-- Where a path leads. -/
def place? (f : Files) (path : String) : Option Place :=
  if path.isEmpty then none
  else f.walk maxLinks (if Path.isAbsolute path then [] else f.current) (Path.parts path)

/-- Whether a path leads to something. -/
def contains (f : Files) (path : String) : Bool :=
  match f.place? path with
  | some (.directory _) => true
  | some (.file _ _) => true
  | _ => false

/-- Whether a path leads to a file. -/
def isFile (f : Files) (path : String) : Bool :=
  match f.place? path with
  | some (.file _ _) => true
  | _ => false

/-- The text of the file that a path leads to. -/
def readText? (f : Files) (path : String) : Option String :=
  match f.place? path with
  | some (.file _ content) => String.fromUTF8? content
  | _ => none

/-- Writes a text to the file that a path leads to. There are no permissions, full disks or limits on
names in a tree: a write fails if the path leads to a directory or to no place, and does nothing
then. -/
def write? (f : Files) (path text : String) : Option Files :=
  match f.place? path with
  | some (.file names _) => some (f.put names (.file text.toUTF8))
  | some (.vacant names) => some (f.put names (.file text.toUTF8))
  | _ => none

/-- The text of a file, or a fault that says what could not be read. -/
def read (f : Files) (what path : String) : Except Fault String :=
  match f.readText? path with
  | some text => .ok text
  | none => .error (.ofResource ("failed to read " ++ what ++ path) .files)

/-- Writes a text to a file; a fault says what could not be written. -/
def write (f : Files) (what path text : String) : Except Fault Files :=
  match f.write? path text with
  | some f => .ok f
  | none => .error (.ofResource ("failed to write " ++ what ++ path) .files)

/-- The path without links of what a path leads to. -/
def realPath? (f : Files) (path : String) : Option String :=
  match f.place? path with
  | some (.directory names) => some (Path.ofNames names)
  | some (.file names _) => some (Path.ofNames names)
  | _ => none

end Files

end Relock
