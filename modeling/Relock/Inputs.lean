import Relock.Digest
import Relock.Json.Value
import Relock.Manifest

/-!
# The digest of a manifest's inputs

A lock remembers which manifest it was made from by a digest of all that bears on resolution.
`Manifest.inputsText` is what is digested: compact JSON with the names of every object in order,
and the ignored packages sorted, so that the order of ignoring does not count.
-/

namespace Relock

def Json.textOrNull (s : Option String) : Json :=
  s.elim .null .text

/-- A constraint as JSON. -/
def Constraint.toJson : Constraint → Json
  | range r => .record [("version", .text r.render)]
  | branch name => .record [("branch", .text name)]

/-- What is asked of a root as JSON. -/
def ProjectProperties.toJson (p : ProjectProperties) : Json :=
  .record [("constraint", p.constraint.elim .null Constraint.toJson),
    ("source", .textOrNull p.source)]

namespace Manifest

/-- All of a manifest that bears on resolution, as JSON. -/
def inputs (m : Manifest) : Json :=
  .record [
    ("constraints", .record (m.constraints.entries.map fun (root, p) => (root.text, p.toJson))),
    ("ignored", .array ((m.ignored.mergeSort (· ≤ ·)).map .text))]

/-- The text that is digested. -/
def inputsText (m : Manifest) : String :=
  String.ofList m.inputs.compact

def inputsDigest (m : Manifest) : String :=
  Digest.ofText m.inputsText

end Manifest

end Relock
