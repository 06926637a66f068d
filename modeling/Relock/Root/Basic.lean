import Relock.Text.Blank

/-!
# Project roots

A project root is the import path under which one repository lives; every import path below it
belongs to the same repository.

* `ProjectRoot` is a path without a slash at its end.
* `contains` says whether a path is the root or lies below it, by whole segments.
* `relativePackage?` is the rest of a path below the root, `.` for the root itself.
-/

namespace Relock

def isSlash (c : Char) : Bool := c == '/'

def segments (path : List Char) : List (List Char) :=
  path.splitOn '/'

def joinSegments (parts : List (List Char)) : List Char :=
  ['/'].intercalate parts

/-- A path without the slashes at its two ends. -/
def trimSlashes (path : String) : String :=
  String.ofList (Text.trimEnds isSlash path.toList)

/-- The import path under which one repository lives. -/
structure ProjectRoot where
  text : String
  no_slash_at_end : text.toList.getLast? ≠ some '/'
deriving DecidableEq

namespace ProjectRoot

/-- The root at a path: the slashes at its end are dropped. -/
def ofChars (path : List Char) : ProjectRoot where
  text := String.ofList (Text.dropTail isSlash path)
  no_slash_at_end h := by
    rw [String.toList_ofList] at h
    simpa [isSlash] using Text.getLast?_dropTail h

/-- The root at a path: the slashes at its end are dropped. -/
def ofString (path : String) : ProjectRoot :=
  ofChars path.toList

/-- Roots are ordered as their texts are, character by character. -/
instance : Ord ProjectRoot where
  compare a b := compare a.text b.text

/-- Whether a path is the root or lies below it. -/
def contains (root : ProjectRoot) (path : String) : Bool :=
  match List.isPrefixOf? root.text.toList path.toList with
  | some [] => true
  | some (c :: _) => c == '/'
  | none => false

/-- The path below the root, `.` for the root itself; none for a path elsewhere. -/
def relativePackage? (root : ProjectRoot) (path : String) : Option String :=
  if root.contains path then
    match (path.toList.drop root.text.toList.length).dropWhile isSlash with
    | [] => some "."
    | rest => some (String.ofList rest)
  else none

end ProjectRoot

end Relock
