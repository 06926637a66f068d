import Relock.Files.Basic
import Relock.LockFile

/-!
# The generated files

Where manifest and lock are kept in a project, and how they are read from there and written there.
-/

namespace Relock

def manifestName : String := "Gopkg.toml"

def lockName : String := "Gopkg.lock"

namespace Files

/-- What a manifest file says. -/
def loadManifestFile (f : Files) (path : String) : Except Fault ManifestFile := do
  match ManifestFile.parse? (← f.read "manifest: " path) with
  | some file => return file
  | none => throw (.ofResource "failed to parse manifest" .toml)

/-- What a lock file says. -/
def loadLockFile (f : Files) (path : String) : Except Fault LockFile := do
  match LockFile.parse? (← f.read "lockfile: " path) with
  | some file => return file
  | none => throw (.ofResource "failed to parse lockfile" .toml)

/-- The lock that is kept in a file, if the file is there. -/
def loadLock (f : Files) (path : String) : Except Fault (Option Lock) :=
  if f.contains path then do
    match (← f.loadLockFile path).toLock with
    | .ok lock => return some lock
    | .error error => throw error.fault
  else .ok none

def saveManifest (f : Files) (path : String) (m : Manifest) : Except Fault Files :=
  f.write "manifest: " path (ManifestFile.ofManifest m).render

def saveLock (f : Files) (path : String) (l : Lock) : Except Fault Files :=
  f.write "lockfile: " path (LockFile.ofLock l).render

end Files

end Relock
