import Relock.Root.Basic
import Relock.Version.Basic

/-!
# Locks

The version that every dependency was resolved to: one entry for each root, in the order in which
they were added, and the digest of the manifest that the lock was made from.
-/

namespace Relock

/-- What a lock keeps of one root. -/
structure LockedProject where
  root : ProjectRoot
  /-- The fork or copy to be used instead. -/
  source : Option String
  version : LockedVersion
  /-- The packages in use, relative to the root, each once. -/
  packages : List String
deriving DecidableEq

namespace LockedProject

/-- Puts a package into use. -/
def addPackage (p : LockedProject) (package : String) : LockedProject :=
  if p.packages.contains package then p else { p with packages := p.packages ++ [package] }

/-- Puts several packages into use, from the first to the last. -/
def addPackages (p : LockedProject) (packages : List String) : LockedProject :=
  packages.foldl addPackage p

end LockedProject

/-- The resolved versions. -/
structure Lock where
  projects : List LockedProject
  /-- The digest of the manifest that the lock was made from. -/
  inputsDigest : Option String
deriving DecidableEq

namespace Lock

def empty : Lock := ⟨[], none⟩

def find? (l : Lock) (root : ProjectRoot) : Option LockedProject :=
  l.projects.find? (·.root = root)

/-- Adds the entry of a root that has none. -/
def addProject? (l : Lock) (project : LockedProject) : Option Lock :=
  if (l.find? project.root).isSome then none
  else some { l with projects := l.projects ++ [project] }

/-- Changes the first entry of a root. -/
def modifyFirst (root : ProjectRoot) (f : LockedProject → LockedProject) :
    List LockedProject → List LockedProject
  | [] => []
  | p :: rest => if p.root = root then f p :: rest else p :: modifyFirst root f rest

/-- Puts a package of a root into use, if the root has an entry. -/
def addPackage (l : Lock) (root : ProjectRoot) (package : String) : Lock :=
  { l with projects := modifyFirst root (·.addPackage package) l.projects }

end Lock

end Relock
