import Relock.Json.Token

/-!
# Reading JSON

A text becomes tokens, and the tokens are read one by one into `Reading`: the arrays and objects
that are still open, from the inside out, and what may come next. `Json.parse?` gives the value of
a text that is one value and nothing else.
-/

namespace Relock.Json

/-- An array or object that is still open, with what it holds so far, the last first. -/
inductive Open where
  | array (items : List Json)
  /-- An object, and the name of the member that is being read. -/
  | object (members : List (Quoted × Json)) (name : Quoted)

/-- What may come next. -/
inductive Expected where
  /-- A value; or the end of the array, if nothing stands in it yet. -/
  | value (mayClose : Bool)
  /-- The name of a member; or the end of the object, if nothing stands in it yet. -/
  | name (mayClose : Bool)
  /-- The colon after a name. -/
  | colon
  /-- A comma, or the end of the innermost array or object. -/
  | separator
  /-- Nothing: the value is complete. -/
  | nothing (value : Json)

/-- How far a text has been read. -/
structure Reading where
  opened : List Open
  expected : Expected

namespace Reading

def start : Reading := ⟨[], .value false⟩

/-- A value is complete: it goes into the innermost open array or object. -/
def complete : List Open → Json → Reading
  | [], value => ⟨[], .nothing value⟩
  | .array items :: rest, value => ⟨.array (value :: items) :: rest, .separator⟩
  | .object members name :: rest, value =>
    ⟨.object ((name, value) :: members) name :: rest, .separator⟩

/-- The innermost open array or object ends. -/
def close? : List Open → Option Reading
  | .array items :: rest => some (complete rest (.array items.reverse))
  | .object members _ :: rest => some (complete rest (.object members.reverse))
  | [] => none

/-- A token where a value is expected. -/
def value? (opened : List Open) : Token → Option Reading
  | .openArray => some ⟨.array [] :: opened, .value true⟩
  | .openObject => some ⟨.object [] none :: opened, .name true⟩
  | .quoted text => some (complete opened (.string text))
  | .plain value => some (complete opened value)
  | _ => none

/-- The name of a member of the innermost open object. -/
def name? (name : Quoted) : List Open → Option Reading
  | .object members _ :: rest => some ⟨.object members name :: rest, .colon⟩
  | _ => none

/-- A token after a value in the innermost open array or object. -/
def separator? (opened : List Open) (token : Token) : Option Reading :=
  match opened, token with
  | .array _ :: _, .comma => some ⟨opened, .value false⟩
  | .array _ :: _, .closeArray => close? opened
  | .object _ _ :: _, .comma => some ⟨opened, .name false⟩
  | .object _ _ :: _, .closeObject => close? opened
  | _, _ => none

/-- Reads one more token. -/
def next? (r : Reading) (token : Token) : Option Reading :=
  match r.expected, token with
  | .value true, .closeArray => close? r.opened
  | .value _, token => value? r.opened token
  | .name true, .closeObject => close? r.opened
  | .name _, .quoted name => name? name r.opened
  | .colon, .colon => some ⟨r.opened, .value false⟩
  | .separator, token => separator? r.opened token
  | _, _ => none

end Reading

/-- The value that a text is. -/
def parse? (text : String) : Option Json := do
  let tokens ← Token.scan? text.toList
  match (← tokens.foldlM Reading.next? .start).expected with
  | .nothing value => some value
  | _ => none

end Relock.Json
