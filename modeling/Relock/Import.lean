import Relock.Convert.Conversion
import Relock.Files.Generated
import Relock.Metadata.Tool

/-!
# Importing a project

Finds the metadata of a dependency tool in a directory, converts it and writes manifest and lock
next to it, unless one of the two is there already. A dry run writes nothing and does not mind.

`Import.run` gives the outcome together with the files as they are afterwards and the session.
-/

namespace Relock

/-- What to import. -/
structure ImportOptions where
  /-- The import path of the project. -/
  project : ProjectRoot
  /-- Packages to be ignored beyond those that the metadata ignores. -/
  ignored : List String
  /-- Whether nothing is to be written. -/
  dryRun : Bool
deriving DecidableEq

/-- What was imported. -/
structure ImportResult where
  /-- The tool whose metadata was read. -/
  tool : Tool
  manifest : Manifest
  lock : Lock
  skipped : List SkippedRoot
deriving DecidableEq

/-- Why nothing was imported. -/
inductive ImportError where
  /-- Something could not be read or written, or is in the way. -/
  | fault (fault : Fault)
  /-- The metadata cannot be converted. -/
  | conversion (error : ConvertError)
deriving DecidableEq

namespace Import

variable {σ : Type}

/-- How an import ended: the outcome, the files and the session. -/
structure Ending (σ : Type) where
  outcome : Except ImportError ImportResult
  files : Files
  session : Session σ

/-- An import that ended with a fault. -/
def Ending.failed (fault : Fault) (files : Files) (session : Session σ) : Ending σ :=
  ⟨.error (.fault fault), files, session⟩

/-- The files that an import into a directory writes, in this order. -/
def outputPaths (dir : String) : List String :=
  [Path.join dir manifestName, Path.join dir lockName]

/-- The file that is in the way of an import. -/
def obstacle? (files : Files) (dir : String) (options : ImportOptions) : Option String :=
  if options.dryRun then none else (outputPaths dir).find? files.contains

/-- What is told at the end. -/
def summary (result : ImportResult) : List Notice :=
  let count := result.lock.projects.length
  let projects := if count = 1 then " project locked, " else " projects locked, "
  result.skipped.map (fun skip => .status .skipped skip.importPath) ++
    [.status .finished (toString count ++ projects ++ toString result.skipped.length ++ " skipped")]

/-- Writes a result, or says that it is not written, and sums it up. -/
def finish (files : Files) (dir : String) (options : ImportOptions) (result : ImportResult)
    (session : Session σ) : Ending σ :=
  if options.dryRun then
    let note := "dry run, not writing " ++ manifestName ++ " or " ++ lockName
    ⟨.ok result, files, (session.tell (.trace .info note)).tellAll (summary result)⟩
  else
    let manifestPath := Path.join dir manifestName
    let lockPath := Path.join dir lockName
    match files.saveManifest manifestPath result.manifest with
    | .error fault => .failed fault files session
    | .ok files =>
      let session := session.tell (.status .wrote manifestPath)
      match files.saveLock lockPath result.lock with
      | .error fault => .failed fault files session
      | .ok files =>
        ⟨.ok result, files, (session.tell (.status .wrote lockPath)).tellAll (summary result)⟩

/-- Converts metadata and goes on with the result. -/
def convert (provider : Provider σ) (files : Files) (dir : String) (options : ImportOptions)
    (tool : Tool) (config : LoadedConfig) (session : Session σ) : Ending σ :=
  let session := session.tell (.status .converting (toString config.records.length ++
    " dependencies for " ++ options.project.text ++ " using " ++ provider.name))
  match (Converter.new session).convert provider options.project config options.ignored with
  | (.error error, converter) => ⟨.error (.conversion error), files, converter.session⟩
  | (.ok (manifest, lock), converter) =>
    finish files dir options ⟨tool, manifest, lock, converter.skipped⟩ converter.session

/-- Reads the metadata of a tool and converts it. -/
def load (provider : Provider σ) (files : Files) (dir : String) (options : ImportOptions)
    (tool : Tool) (session : Session σ) : Ending σ :=
  let session := session.tell (.status .detected (tool.name ++ " configuration in " ++ dir))
  match tool.load files dir with
  | (.error fault, notices) =>
    .failed (fault.within ("failed to load " ++ tool.name ++ " configuration")) files
      (session.tellAll notices)
  | (.ok config, notices) =>
    convert provider files dir options tool config (session.tellAll notices)

/-- Imports the project in a directory. -/
def run (provider : Provider σ) (files : Files) (dir : String) (options : ImportOptions)
    (session : Session σ) : Ending σ :=
  match obstacle? files dir options with
  | some path => .failed (.own (path ++ " already exists")) files session
  | none =>
    match Tool.detect? files dir with
    | none => .failed (.own (Tool.missingMessage dir)) files session
    | some tool => load provider files dir options tool session

end Import

end Relock
