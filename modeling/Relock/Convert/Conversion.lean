import Relock.Convert.Error
import Relock.Inputs
import Relock.Lock
import Relock.Resolve.Choice
import Relock.Root.Deduction

/-!
# Conversion

From the records of a project's metadata to a manifest and a lock.

* `Conversion` is how far a conversion has come, and `Conversion.step` takes in one record.
* A record of the project itself and one that is ignored is passed over. A record whose root cannot
  be found is left out. The first record of a root decides what is asked and locked for it; later
  ones only add their packages, or are left out with it.
* `convert` runs over all records and then adds the ignored packages and the digest.

Metadata that cannot be converted ends a conversion before the first record.
-/

namespace Relock

/-- A dependency that was left out, and why. -/
structure SkippedRoot where
  /-- The import path without a root, or the root without a version. -/
  importPath : String
  error : ResolveError
deriving DecidableEq

/-- How far a conversion has come. -/
structure Conversion (σ : Type) where
  manifest : Manifest
  lock : Lock
  deducer : Deducer
  /-- The roots that a record was resolved for. -/
  seen : List ProjectRoot
  /-- Those of them that could not be resolved. -/
  failed : List ProjectRoot
  skipped : List SkippedRoot
  session : Session σ

namespace Conversion

variable {σ : Type}

def start (session : Session σ) : Conversion σ :=
  ⟨.empty, .empty, .empty, [], [], [], session⟩

def tell (notice : Notice) (c : Conversion σ) : Conversion σ :=
  { c with session := c.session.tell notice }

/-- Leaves a dependency out. -/
def skip (importPath : String) (error : ResolveError) (c : Conversion σ) : Conversion σ :=
  { c with
    skipped := c.skipped ++ [⟨importPath, error⟩]
    session := c.session.tellAll
      [.warning ("skipping " ++ importPath ++ ": " ++ error.message),
        .explanation error.diagnostic] }

/-- What is asked of a root, unless nothing is. -/
def properties? (record : ImportRecord) (resolution : Resolution) : Option ProjectProperties :=
  if resolution.constraint.isSome || record.source.isSome then
    some ⟨resolution.constraint, record.source⟩
  else none

/-- Asks something of a root. -/
def ask (root : ProjectRoot) (properties? : Option ProjectProperties) (m : Manifest) : Manifest :=
  (properties?.bind (m.addConstraint? root)).getD m

/-- The lock entry of a root, with the package that brought it in. -/
def lockedProject (root : ProjectRoot) (path : String) (record : ImportRecord)
    (resolution : Resolution) : LockedProject :=
  ⟨root, record.source, resolution.version, (root.relativePackage? path).toList⟩

/-- What is told of a root that was resolved. -/
def lockedNotice (root : ProjectRoot) (resolution : Resolution) : Notice :=
  .status .locked (root.text ++ " at " ++ resolution.version.render ++
    resolution.constraint.elim "" fun c => " (" ++ c.render ++ ")")

/-- What is told of a root that is going to be resolved. -/
def resolvingNotice (root : ProjectRoot) (record : ImportRecord) : Notice :=
  .detail (root.text ++ ": resolving " ++ record.revision.text ++
    record.label.elim "" fun label => " (" ++ label ++ ")")

/-- Puts a root that was resolved into the manifest and the lock. -/
def accept (root : ProjectRoot) (path : String) (record : ImportRecord) (resolution : Resolution)
    (c : Conversion σ) : Conversion σ :=
  { c with
    manifest := ask root (properties? record resolution) c.manifest
    lock := (c.lock.addProject? (lockedProject root path record resolution)).getD c.lock
    session := c.session.tell (lockedNotice root resolution) }

/-- Resolves the first record of a root. -/
def resolveRoot (provider : Provider σ) (root : ProjectRoot) (path : String)
    (record : ImportRecord) (c : Conversion σ) : Conversion σ :=
  let session := c.session.tell (resolvingNotice root record)
  let c := { c with seen := root :: c.seen }
  match resolve provider root record.source record.revision record.label session with
  | (.ok resolution, session) => accept root path record resolution { c with session }
  | (.error error, session) =>
    skip root.text error { c with session, failed := root :: c.failed }

/-- Adds the package of a later record of a root. -/
def join (root : ProjectRoot) (path : String) (c : Conversion σ) : Conversion σ :=
  { c with
    lock := (root.relativePackage? path).elim c.lock (c.lock.addPackage root)
    session := c.session.tell (.detail (path ++ ": already converted as part of " ++ root.text)) }

/-- Takes in a record whose root is known. -/
def stepAt (provider : Provider σ) (root : ProjectRoot) (path : String) (record : ImportRecord)
    (c : Conversion σ) : Conversion σ :=
  if root ∈ c.failed then c.tell (.detail (path ++ ": skipped with " ++ root.text))
  else if root ∈ c.seen then c.join root path
  else c.resolveRoot provider root path record

/-- Takes in a record of the project at `project`, for which the packages of `ignored` do not
count. -/
def step (provider : Provider σ) (project : ProjectRoot) (ignored : List String)
    (c : Conversion σ) (record : ImportRecord) : Conversion σ :=
  let path := trimSlashes record.importPath
  if project.contains path then
    c.tell (.detail (path ++ ": part of the project itself, skipping"))
  else if path ∈ ignored then c.tell (.detail (path ++ ": ignored, skipping"))
  else
    match c.deducer.deduce provider path c.session with
    | (.ok root, deducer, session) =>
      stepAt provider root path record { c with deducer, session }
    | (.error error, deducer, session) => skip path error { c with deducer, session }

/-- Ignores a package in the manifest, unless it is ignored already. -/
def ignore (c : Conversion σ) (package : String) : Conversion σ :=
  match c.manifest.ignore? package with
  | some manifest => { c with manifest, session := c.session.tell (.status .ignored package) }
  | none => c

/-- Ends a conversion: the ignored packages and the digest are added. -/
def finish (ignored : List String) (c : Conversion σ) : Conversion σ :=
  let c := ignored.foldl ignore c
  { c with lock := { c.lock with inputsDigest := some c.manifest.inputsDigest } }

/-- A whole conversion. -/
def run (provider : Provider σ) (project : ProjectRoot) (records : List ImportRecord)
    (ignored : List String) (session : Session σ) : Conversion σ :=
  (records.foldl (step provider project ignored) (start session)).finish ignored

end Conversion

/-- A converter: what its last successful conversion left out, and all it has done so far. -/
structure Converter (σ : Type) where
  skipped : List SkippedRoot
  session : Session σ

namespace Converter

variable {σ : Type}

def new (session : Session σ) : Converter σ := ⟨[], session⟩

/-- Converts the metadata of the project at `project`; packages may be ignored beyond those that
the metadata ignores. -/
def convert (provider : Provider σ) (project : ProjectRoot) (config : LoadedConfig)
    (ignored : List String) (c : Converter σ) :
    Except ConvertError (Manifest × Lock) × Converter σ :=
  match config.error? with
  | some error => (.error error, c)
  | none =>
    let done := Conversion.run provider project config.records (config.ignored ++ ignored) c.session
    (.ok (done.manifest, done.lock), ⟨done.skipped, done.session⟩)

end Converter

end Relock
