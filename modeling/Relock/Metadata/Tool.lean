import Relock.Fault
import Relock.Files.Basic
import Relock.Metadata.Glide
import Relock.Metadata.Godep
import Relock.Metadata.Vndr
import Relock.Report.Notice

/-!
# Dependency tools

The tools whose metadata can be read. `Tool.detect?` is the first one, in the order of `Tool.all`,
whose metadata is in a directory, and `Tool.load` reads it.
-/

namespace Relock

/-- A dependency tool. -/
inductive Tool where
  | godep
  | glide
  | vndr
deriving DecidableEq

namespace Tool

/-- The tools, in the order in which they are looked for. -/
def all : List Tool := [godep, glide, vndr]

/-- The name of a tool. -/
def name : Tool → String
  | godep => "godep"
  | glide => "glide"
  | vndr => "vndr"

/-- The file that tells of a tool, in a directory. -/
def markerPath (dir : String) : Tool → String
  | godep => Path.join dir GodepFile.path
  | glide => Path.join dir GlideFile.path
  | vndr => Path.join dir Vndr.path

def isPresent (f : Files) (dir : String) (tool : Tool) : Bool :=
  f.isFile (tool.markerPath dir)

/-- The tool whose metadata counts in a directory. -/
def detect? (f : Files) (dir : String) : Option Tool :=
  all.find? (isPresent f dir)

/-- What is said of a directory without metadata. -/
def missingMessage (dir : String) : String :=
  "no godep, glide or vndr metadata found in " ++ dir ++
    "\nhelp: Run from a project containing Godeps/Godeps.json, glide.yaml or vendor.conf"

/-- What was read, or why it could not be, and what was to tell on the way. -/
abbrev Loaded := Except Fault LoadedConfig × List Notice

def loading (path : String) : Notice :=
  .trace .debug ("loading " ++ path)

/-- Reads godep metadata. -/
def loadGodep (f : Files) (path : String) : Except Fault LoadedConfig := do
  match GodepFile.parse? (← f.read "" path) with
  | some file => return ⟨file.records, [], some path⟩
  | none => throw ((Fault.ofResource "failed to parse Godeps.json" .json).within ("in " ++ path))

def loadVndr (f : Files) (path : String) : Except Fault LoadedConfig := do
  return ⟨Vndr.records (← f.read "" path), [], some path⟩

/-- Reads glide metadata without its lock. -/
def loadGlideFile (f : Files) (path : String) : Except Fault GlideFile := do
  match GlideFile.parse? (← f.read "" path) with
  | some file => return file
  | none => throw (.ofResource "failed to parse glide.yaml" .yaml)

/-- Reads a glide lock. -/
def loadGlideLock (f : Files) (path : String) : Except Fault GlideLock := do
  match GlideLock.parse? (← f.read "" path) with
  | some lock => return lock
  | none => throw (.ofResource "failed to parse glide.lock" .yaml)

/-- What is told of directories that are to be excluded. -/
def excludedNotices (dirs : List String) : List Notice :=
  if dirs.isEmpty then []
  else [.trace .warn ("glide excludeDirs has no equivalent and is dropped: " ++
    ", ".intercalate dirs)]

/-- What glide metadata and its lock amount to, pinned in a file. -/
def glideConfig (file : GlideFile) (lock : Option GlideLock) (path : String) : Loaded :=
  (.ok ⟨file.records lock, file.ignored, some path⟩, excludedNotices file.excludedDirs)

/-- Reads glide metadata, and its lock if it is there. -/
def loadGlide (f : Files) (path lockPath : String) : Loaded :=
  match loadGlideFile f path with
  | .error fault => (.error fault, [])
  | .ok file =>
    if f.isFile lockPath then
      match loadGlideLock f lockPath with
      | .error fault => (.error fault, [loading lockPath])
      | .ok lock => (glideConfig file (some lock) lockPath).map id (loading lockPath :: ·)
    else glideConfig file none path

/-- Reads the metadata of a tool in a directory. -/
def load (f : Files) (dir : String) (tool : Tool) : Loaded :=
  let path := tool.markerPath dir
  let loaded := match tool with
    | godep => (loadGodep f path, [])
    | glide => loadGlide f path (Path.join dir GlideLock.path)
    | vndr => (loadVndr f path, [])
  loaded.map id (loading path :: ·)

end Tool

end Relock
