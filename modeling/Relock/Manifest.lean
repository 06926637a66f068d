import Relock.Root.Basic
import Relock.SortedMap
import Relock.Version.Basic

/-!
# Manifests

What a project asks of its dependencies: for each root at most one constraint and source, in the
order of the roots, and the packages to be ignored, each once, as they were first named.
-/

namespace Relock

namespace ProjectRoot

instance : Std.TransOrd ProjectRoot where
  eq_swap {a b} := by
    change compare a.text b.text = (compare b.text a.text).swap
    exact Std.OrientedCmp.eq_swap
  isLE_trans {a b c} hab hbc := by
    change (compare a.text c.text).isLE = true
    exact Std.TransCmp.isLE_trans hab hbc

end ProjectRoot

/-- What is asked of one root. -/
structure ProjectProperties where
  /-- The versions that will do; none if any will. -/
  constraint : Option Constraint
  /-- The fork or copy to be used instead. -/
  source : Option String
deriving DecidableEq

/-- What a project asks of its dependencies. -/
structure Manifest where
  constraints : SortedMap ProjectRoot ProjectProperties
  ignored : List String
deriving DecidableEq

namespace Manifest

def empty : Manifest := ⟨.empty, []⟩

/-- Asks something of a root of which nothing is asked yet. -/
def addConstraint? (m : Manifest) (root : ProjectRoot) (properties : ProjectProperties) :
    Option Manifest :=
  (m.constraints.insertNew? root properties).map fun constraints => { m with constraints }

/-- Ignores a package that is not ignored yet; blanks at its ends do not count, and a blank name
is none. -/
def ignore? (m : Manifest) (package : String) : Option Manifest :=
  let package := Text.trim package
  if package.isEmpty || m.ignored.contains package then none
  else some { m with ignored := m.ignored ++ [package] }

def constraintFor? (m : Manifest) (root : ProjectRoot) : Option Constraint :=
  (m.constraints.lookup? root).bind (·.constraint)

def isIgnored (m : Manifest) (package : String) : Bool :=
  m.ignored.contains package

end Manifest

end Relock
