import Relock.Root.Basic

/-!
# Paths

A path is a text of names with slashes between them; one that begins with a slash begins at the top,
and any other wherever its reader stands.

* `join` puts a path behind another one, as it stands.
* `names` are the names along a path. Empty ones do not count, and neither does a dot, except at the
  beginning.
-/

namespace Relock.Path

def isAbsolute (path : String) : Bool :=
  path.toList.head? == some '/'

/-- A path behind another one; one that begins at the top stands alone. -/
def join (base path : String) : String :=
  if isAbsolute path || base.isEmpty then path
  else if base.toList.getLast? = some '/' then base ++ path
  else base ++ "/" ++ path

def parts (path : String) : List String :=
  (segments path.toList).map String.ofList

/-- Whether a part of a path leads nowhere. -/
def isIdle (part : String) : Bool :=
  part.isEmpty || part == "."

/-- The names along a path, the top itself being `/`. -/
def names (path : String) : List String :=
  let named := (parts path).filter (!isIdle ·)
  if isAbsolute path then "/" :: named
  else if (parts path).head? = some "." then "." :: named
  else named

/-- The names along a path after those of another one that it begins with. -/
def namesBelow? (base path : String) : Option (List String) :=
  (names base).isPrefixOf? (names path)

def ofNames (names : List String) : String :=
  "/" ++ "/".intercalate names

end Relock.Path
