import Relock.Resolve.Error
import Relock.Version.Order

/-!
# Choosing a version

From the revision and the label that were recorded for a project to what the lock keeps and the
manifest asks.

* A label that reads as a semantic version asks for compatible versions, whatever is locked. If the
  repository has that version at the recorded revision, it is locked, and a tag spelled exactly
  like the label wins over others that only read the same.
* Else the first version at the recorded revision, in upgrade order, is locked, and asks for what
  it implies if the label asked for nothing.
* Else the revision alone is locked. No version is ever made up.
-/

namespace Relock

/-- What is locked and what is asked for. -/
structure Resolution where
  constraint : Option Constraint
  version : LockedVersion
deriving DecidableEq

namespace Resolution

def atRevision (revision : Revision) (versions : List PairedVersion) : List PairedVersion :=
  versions.filter (·.revision.isNamedBy revision)

def ofNumber (number : Semver) (versions : List PairedVersion) : List PairedVersion :=
  versions.filter (·.version.number? = some number)

/-- The one spelled like the label, or else the first. -/
def spelledLike? (label : String) (versions : List PairedVersion) : Option PairedVersion :=
  (versions.find? (·.version.label = label)).or versions.head?

/-- What the lock keeps when no label decided: the first version at the revision. -/
def byRevision (root : ProjectRoot) (revision : Revision) (constraint : Option Constraint)
    (versions : List PairedVersion) : Resolution × List Notice :=
  let here := atRevision revision versions
  match here with
  | [] =>
    (⟨constraint, .bare revision⟩,
      [.detail (root.text ++ ": no version points at " ++ revision.text ++
        ", locking the revision")])
  | best :: others =>
    (⟨constraint.or best.version.constraint?, .paired best⟩,
      if others.isEmpty then []
      else [.detail (root.text ++ ": " ++ ", ".intercalate (here.map (·.version.label)) ++
        " all point at " ++ revision.text ++ ", choosing " ++ best.version.label)])

/-- What is told of a label that names a commit some steps after a tag. -/
def describedNotice (root : ProjectRoot) (label : String) : List Notice :=
  if Label.hasDescribeSuffix label then
    [.detail (root.text ++ ": `" ++ label ++ "` is a described commit, not a release tag")]
  else []

/-- What is told of a tag that is not where the record has it. -/
def movedNotice (root : ProjectRoot) (revision : Revision) : List PairedVersion → List Notice
  | [] => []
  | moved :: _ =>
    [.detail (root.text ++ ": tag `" ++ moved.version.label ++ "` points at " ++
      moved.revision.text ++ ", not " ++ revision.text ++ "; locking by revision")]

/-- The choice among versions in upgrade order. -/
def choose (root : ProjectRoot) (revision : Revision) (label : Option String)
    (versions : List PairedVersion) : Resolution × List Notice :=
  match label with
  | none => byRevision root revision none versions
  | some label =>
    match Label.number? label with
    | none =>
      let (resolution, notices) := byRevision root revision none versions
      (resolution,
        .detail (root.text ++ ": label `" ++ label ++
          "` is not a semantic version, ignoring it") :: notices)
    | some number =>
      let constraint := some (Constraint.caret number)
      let tagged := ofNumber number versions
      match spelledLike? label (atRevision revision tagged) with
      | some exact => (⟨constraint, .paired exact⟩, describedNotice root label)
      | none =>
        let (resolution, notices) := byRevision root revision constraint versions
        (resolution, describedNotice root label ++ movedNotice root revision tagged ++ notices)

end Resolution

/-- Resolves what was recorded for a root against the versions that its provider lists. -/
def resolve {σ : Type} (provider : Provider σ) (root : ProjectRoot) (source : Option String)
    (revision : Revision) (label : Option String) (s : Session σ) :
    Except ResolveError Resolution × Session σ :=
  match s.listVersions provider root source with
  | (.error error, s) => (.error (.ofListing root error), s)
  | (.ok versions, s) =>
    let (resolution, notices) :=
      Resolution.choose root revision label (sortForUpgrade versions)
    (.ok resolution, s.tellAll notices)

end Relock
