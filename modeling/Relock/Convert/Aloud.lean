import Relock.Convert.Conversion
import Relock.Report.Console

/-!
# Conversions told at a console

`Converter.convert` collects what it has to tell, and who called it shows as much of it as he likes.
Here the same conversion has a console at hand: it tells the console everything at the moment it
comes up, and the reason why a dependency is left out is only made into a text if the console shows
it. What the provider and the deducer have to tell is handed on as soon as they are done.

`resolveAloud` and `Converter.convertAloud` are the counterparts of `resolve` and
`Converter.convert`.
-/

namespace Relock

variable {σ : Type}

/-- Hands on to a console what a session has to tell. -/
def Session.flush (s : Session σ) (k : Console) : Session σ × Console :=
  ({ s with notices := [] }, k.hearAll s.notices)

/-! ## Resolving -/

namespace Resolution

/-- What the lock keeps when no label decided: the first version at the revision. -/
def byRevisionAloud (root : ProjectRoot) (revision : Revision) (constraint : Option Constraint)
    (versions : List PairedVersion) (k : Console) : Resolution × Console :=
  let here := atRevision revision versions
  match here with
  | [] =>
    (⟨constraint, .bare revision⟩,
      k.detail (root.text ++ ": no version points at " ++ revision.text ++
        ", locking the revision"))
  | best :: others =>
    let k :=
      if others.isEmpty then k
      else k.detail (root.text ++ ": " ++ ", ".intercalate (here.map (·.version.label)) ++
        " all point at " ++ revision.text ++ ", choosing " ++ best.version.label)
    (⟨constraint.or best.version.constraint?, .paired best⟩, k)

/-- The choice among versions in upgrade order. -/
def chooseAloud (root : ProjectRoot) (revision : Revision) (label : Option String)
    (versions : List PairedVersion) (k : Console) : Resolution × Console :=
  match label with
  | none => byRevisionAloud root revision none versions k
  | some label =>
    match Label.number? label with
    | none =>
      byRevisionAloud root revision none versions
        (k.detail (root.text ++ ": label `" ++ label ++
          "` is not a semantic version, ignoring it"))
    | some number =>
      let constraint := some (Constraint.caret number)
      let k :=
        if Label.hasDescribeSuffix label then
          k.detail (root.text ++ ": `" ++ label ++ "` is a described commit, not a release tag")
        else k
      let tagged := ofNumber number versions
      match spelledLike? label (atRevision revision tagged) with
      | some exact => (⟨constraint, .paired exact⟩, k)
      | none =>
        let k :=
          match tagged with
          | [] => k
          | moved :: _ =>
            k.detail (root.text ++ ": tag `" ++ moved.version.label ++ "` points at " ++
              moved.revision.text ++ ", not " ++ revision.text ++ "; locking by revision")
        byRevisionAloud root revision constraint versions k

end Resolution

/-- Resolves what was recorded for a root against the versions that its provider lists. -/
def resolveAloud (provider : Provider σ) (root : ProjectRoot) (source : Option String)
    (revision : Revision) (label : Option String) (s : Session σ) (k : Console) :
    (Except ResolveError Resolution × Session σ) × Console :=
  let (answer, s) := s.listVersions provider root source
  let (s, k) := s.flush k
  match answer with
  | .error error => ((.error (.ofListing root error), s), k)
  | .ok versions =>
    let (resolution, k) :=
      Resolution.chooseAloud root revision label (sortForUpgrade versions) k
    ((.ok resolution, s), k)

/-! ## Converting -/

namespace Conversion

/-- Leaves a dependency out. -/
def skipAloud (importPath : String) (error : ResolveError) (c : Conversion σ) (k : Console) :
    Conversion σ × Console :=
  let k := k.warn ("skipping " ++ importPath ++ ": " ++ error.message)
  let k := if k.isVerbose then k.block (error.diagnostic.render k.shell.painted) else k
  ({ c with skipped := c.skipped ++ [⟨importPath, error⟩] }, k)

def acceptAloud (root : ProjectRoot) (path : String) (record : ImportRecord)
    (resolution : Resolution) (c : Conversion σ) (k : Console) : Conversion σ × Console :=
  ({ c with
      manifest := ask root (properties? record resolution) c.manifest
      lock := (c.lock.addProject? (lockedProject root path record resolution)).getD c.lock },
    k.status .locked (root.text ++ " at " ++ resolution.version.render ++
      resolution.constraint.elim "" fun c => " (" ++ c.render ++ ")"))

def resolveRootAloud (provider : Provider σ) (root : ProjectRoot) (path : String)
    (record : ImportRecord) (c : Conversion σ) (k : Console) : Conversion σ × Console :=
  let k := k.detail (root.text ++ ": resolving " ++ record.revision.text ++
    record.label.elim "" fun label => " (" ++ label ++ ")")
  let c := { c with seen := root :: c.seen }
  match resolveAloud provider root record.source record.revision record.label c.session k with
  | ((.ok resolution, session), k) => acceptAloud root path record resolution { c with session } k
  | ((.error error, session), k) =>
    skipAloud root.text error { c with session, failed := root :: c.failed } k

/-- Adds the package of a later record of a root. -/
def joinAloud (root : ProjectRoot) (path : String) (c : Conversion σ) (k : Console) :
    Conversion σ × Console :=
  ({ c with lock := (root.relativePackage? path).elim c.lock (c.lock.addPackage root) },
    k.detail (path ++ ": already converted as part of " ++ root.text))

def stepAtAloud (provider : Provider σ) (root : ProjectRoot) (path : String)
    (record : ImportRecord) (c : Conversion σ) (k : Console) : Conversion σ × Console :=
  if root ∈ c.failed then (c, k.detail (path ++ ": skipped with " ++ root.text))
  else if root ∈ c.seen then c.joinAloud root path k
  else c.resolveRootAloud provider root path record k

/-- Takes in a record of the project at `project`, for which the packages of `ignored` do not
count. -/
def stepAloud (provider : Provider σ) (project : ProjectRoot) (ignored : List String) :
    Conversion σ × Console → ImportRecord → Conversion σ × Console
  | (c, k), record =>
    let path := trimSlashes record.importPath
    if project.contains path then
      (c, k.detail (path ++ ": part of the project itself, skipping"))
    else if path ∈ ignored then (c, k.detail (path ++ ": ignored, skipping"))
    else
      let (answer, deducer, session) := c.deducer.deduce provider path c.session
      let (session, k) := session.flush k
      match answer with
      | .ok root => stepAtAloud provider root path record { c with deducer, session } k
      | .error error => skipAloud path error { c with deducer, session } k

def ignoreAloud : Conversion σ × Console → String → Conversion σ × Console
  | (c, k), package =>
    match c.manifest.ignore? package with
    | some manifest => ({ c with manifest }, k.status .ignored package)
    | none => (c, k)

/-- Ends a conversion: the ignored packages and the digest are added. -/
def finishAloud (ignored : List String) (c : Conversion σ) (k : Console) :
    Conversion σ × Console :=
  let (c, k) := ignored.foldl ignoreAloud (c, k)
  ({ c with lock := { c.lock with inputsDigest := some c.manifest.inputsDigest } }, k)

def runAloud (provider : Provider σ) (project : ProjectRoot) (records : List ImportRecord)
    (ignored : List String) (session : Session σ) (k : Console) : Conversion σ × Console :=
  let (c, k) := records.foldl (stepAloud provider project ignored) (start session, k)
  c.finishAloud ignored k

end Conversion

namespace Converter

/-- Converts the metadata of the project at `project`; packages may be ignored beyond those that
the metadata ignores. -/
def convertAloud (provider : Provider σ) (project : ProjectRoot) (config : LoadedConfig)
    (ignored : List String) (c : Converter σ) (k : Console) :
    (Except ConvertError (Manifest × Lock) × Converter σ) × Console :=
  match config.error? with
  | some error => ((.error error, c), k)
  | none =>
    let (done, k) :=
      Conversion.runAloud provider project config.records (config.ignored ++ ignored) c.session k
    ((.ok (done.manifest, done.lock), ⟨done.skipped, done.session⟩), k)

end Converter

end Relock
