import Relock.Json.Value

/-!
# The fields of JSON records

What a record of known fields is in JSON: an object whose members are named for them, or an array of
them in order. A field may have several names but may be given only once; members of other names do
not count, but an array may not have more items than there are fields. A field that is not given is
missing.
-/

namespace Relock.Json

/-- The text that a value is. -/
def text? : Json → Option String
  | string text => text
  | _ => none

/-- The list that a value is, each item as `item?` reads it. -/
def list? {α : Type} (item? : Json → Option α) : Json → Option (List α)
  | array items => items.mapM item?
  | _ => none

/-- A field with a value to take where it is missing. -/
def orDefault? {α : Type} (missing : α) (read? : Json → Option α) : Option Json → Option α
  | none => some missing
  | some value => read? value

/-- The field of some names among the members of an object; none if it is given twice. -/
def field? (names : List String) (members : List (Quoted × Json)) : Option (Option Json) :=
  match members.filter fun member => member.1.any names.contains with
  | [] => some none
  | [member] => some (some member.2)
  | _ => none

/-- The fields of a record, in the order of `fields`, each a list of names. -/
def fields? (fields : List (List String)) : Json → Option (List (Option Json))
  | object members =>
    if members.all (·.1.isSome) then fields.mapM (field? · members) else none
  | array items =>
    if items.length ≤ fields.length then some (fields.zipIdx.map fun (_, i) => items[i]?) else none
  | _ => none

end Relock.Json
