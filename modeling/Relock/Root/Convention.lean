import Relock.Root.Basic

/-!
# Hosting conventions

Roots that can be told from the path alone. A segment that ends in the mark of a version control
system ends the root, wherever it is; else well-known hosts keep their repositories at a fixed
depth.
-/

namespace Relock.Convention

/-- Marks at the end of a segment that ends a root. -/
def repositoryMarks : List (List Char) :=
  [['.', 'g', 'i', 't'], ['.', 'h', 'g'], ['.', 'b', 'z', 'r'], ['.', 's', 'v', 'n']]

def isMarked (segment : List Char) : Bool :=
  repositoryMarks.any (·.isSuffixOf segment)

/-- Hosts whose repositories are at `host/owner/repository`. -/
def ownerHosts : List String := ["github.com", "bitbucket.org", "gitlab.com"]

/-- The segments up to and with the first marked one, if there is one. -/
def throughMark? : List (List Char) → Option (List (List Char))
  | [] => none
  | part :: parts =>
    if isMarked part then some [part] else (throughMark? parts).map (part :: ·)

/-- The first `n` segments, if there are so many and none is empty. -/
def firstSegments? (n : Nat) (parts : List (List Char)) : Option (List (List Char)) :=
  let front := parts.take n
  if front.length = n ∧ front.all (! ·.isEmpty) then some front else none

/-- Whether a segment is a name, `.v` and a number, as in `yaml.v2`. -/
def isVersioned (segment : List Char) : Bool :=
  let reversed := segment.reverse
  match reversed.dropWhile Char.isDigit with
  | 'v' :: '.' :: name => (reversed.takeWhile Char.isDigit).length != 0 && !name.isEmpty
  | _ => false

/-- The root at a host of known habits. -/
def byHost? : List (List Char) → Option (List (List Char))
  | [] => none
  | parts@(host :: rest) =>
    let host := String.ofList host
    if host ∈ ownerHosts then firstSegments? 3 parts
    else if host = "golang.org" ∧ rest.head? = some ['x'] then firstSegments? 3 parts
    else if host = "gopkg.in" then
      match rest with
      | [] => none
      | second :: rest =>
        if isVersioned second then firstSegments? 2 parts
        else if rest.head?.any isVersioned then firstSegments? 3 parts
        else none
    else none

/-- The root of a path by convention, if there is one for it. -/
def root? (path : String) : Option ProjectRoot :=
  let parts := segments (trimSlashes path).toList
  ((throughMark? parts).or (byHost? parts)).map fun front => .ofChars (joinSegments front)

end Relock.Convention
