import Relock.Yaml.Node

/-!
# The contents of YAML documents

What a node is to someone who expects a text, a list or a record. Aliases are followed on the way. A
plain text is a text whatever it looks like; where nothing stands, a text is empty, a list too, and
all fields of a record are missing. A field may be given once, and fields of other names do not
count.
-/

namespace Relock.Yaml.Document

/-- The text that a node is. -/
def text? (d : Document) (node : Node) : Option String :=
  match d.target node with
  | .scalar _ text _ => some text
  | _ => none

/-- Whether nothing stands at a node. -/
def isNothing : Node → Bool
  | .scalar _ text isPlain => isPlain && text.isEmpty
  | _ => false

/-- The list that a node is, each item as `item?` reads it. -/
def list? {α : Type} (item? : Node → Option α) (d : Document) (node : Node) : Option (List α) :=
  match d.target node with
  | .sequence _ items => items.mapM item?
  | node => if isNothing node then some [] else none

/-- The field of a name among named values; none if it is given twice. -/
def field? (name : String) (members : List (String × Node)) : Option (Option Node) :=
  match members.filter (·.1 = name) with
  | [] => some none
  | [member] => some (some member.2)
  | _ => none

/-- The fields of a record, in the order of `names`. -/
def fields? (names : List String) (d : Document) (node : Node) : Option (List (Option Node)) :=
  match d.target node with
  | .mapping _ pairs => do
    let members ← pairs.mapM fun (key, value) => (d.text? key).map (·, value)
    names.mapM (field? · members)
  | node => if isNothing node then some (names.map fun _ => none) else none

/-- A field with a value to take where it is missing. -/
def orDefault? {α : Type} (missing : α) (read? : Node → Option α) : Option Node → Option α
  | none => some missing
  | some node => read? node

end Relock.Yaml.Document
