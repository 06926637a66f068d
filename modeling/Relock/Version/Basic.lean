import Relock.Text.Blank
import Relock.Text.Digit
import Relock.Version.Label
import Relock.Version.Range

/-!
# Versions of a repository

* `Revision` names a commit, by its full hash or by an abbreviation of it.
* `Version` is a label that a repository publishes: a tag, which may be a semantic version, or a
  branch.
* `PairedVersion` binds a label to the revision it points at, and `LockedVersion` is what a lock
  keeps of a project: a label, a label with its revision, or the revision alone.
* `Constraint` is what a manifest asks of a project's versions.
-/

namespace Relock

/-- The name of a commit. -/
structure Revision where
  text : String
deriving DecidableEq

namespace Revision

/-- A revision of blanks names no commit. -/
def isEmpty (r : Revision) : Bool :=
  Text.isBlankText r.text

/-- Whether a text could be a commit hash, abbreviated or full: 7 to 40 hexadecimal digits. -/
def looksLikeCommit (s : String) : Bool :=
  7 ≤ s.utf8ByteSize && s.utf8ByteSize ≤ 40 && s.toList.all Text.isHexDigit

/-- Whether `recorded` names this revision, by its full text or as the abbreviation of a hash. -/
def isNamedBy (known recorded : Revision) : Bool :=
  known = recorded ||
    (looksLikeCommit recorded.text && recorded.text.toList.isPrefixOf known.text.toList)

end Revision

/-- A label that a repository publishes. -/
inductive Version where
  /-- A tag that is a semantic version, with its spelling. -/
  | semver (number : Semver) (label : String)
  /-- A branch, which may be the one that the repository shows by default. -/
  | branch (name : String) (isDefault : Bool)
  /-- Any other tag. -/
  | tag (name : String)
deriving DecidableEq

namespace Version

/-- The version that a tag is: semantic if the whole of it is one, after a single `v` or none. -/
def ofTag (tag : String) : Version :=
  match Label.number? tag with
  | some number => if (Label.strictNumber? tag).isSome then semver number tag else .tag tag
  | none => .tag tag

/-- The text of a version. -/
def label : Version → String
  | semver _ label => label
  | branch name _ => name
  | tag name => name

/-- The number of a semantic version. -/
def number? : Version → Option Semver
  | semver number _ => some number
  | _ => none

end Version

/-- A label and the revision that it points at. -/
structure PairedVersion where
  version : Version
  revision : Revision
deriving DecidableEq

/-- What a lock keeps of a project's version. -/
inductive LockedVersion where
  | unpaired (version : Version)
  | paired (version : PairedVersion)
  | bare (revision : Revision)
deriving DecidableEq

namespace LockedVersion

/-- The label, if one is known. -/
def version? : LockedVersion → Option Version
  | unpaired version => some version
  | paired version => some version.version
  | bare _ => none

/-- The revision, if one is known. -/
def revision? : LockedVersion → Option Revision
  | unpaired _ => none
  | paired version => some version.revision
  | bare revision => some revision

/-- Whether both label and revision are known. -/
def isPaired : LockedVersion → Bool
  | paired _ => true
  | _ => false

/-- The label, or else the revision. -/
def render : LockedVersion → String
  | unpaired version => version.label
  | paired version => version.version.label
  | bare revision => revision.text

end LockedVersion

/-- What a manifest asks of a project's versions. -/
inductive Constraint where
  | range (r : Range)
  | branch (name : String)
deriving DecidableEq

namespace Constraint

def caret (number : Semver) : Constraint :=
  range (.caret number)

/-- The text of a constraint. -/
def render : Constraint → String
  | range r => r.render
  | branch name => name

end Constraint

/-- What choosing a version asks of later ones: a semantic version asks for compatible ones, a
branch for itself, and any other tag for nothing. -/
def Version.constraint? : Version → Option Constraint
  | semver number _ => some (.caret number)
  | branch name _ => some (.branch name)
  | tag _ => none

end Relock
