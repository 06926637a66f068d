/-!
# JSON values

* `Json` is a value. An object is the list of its members as they are written, a name that is
  written twice included. A number is its text, which nobody here needs to evaluate.
* `Json.compact` writes a value without blanks, and `quote` a string.

A quoted text may name one half of a pair of UTF-16 surrogates without the other. It is then a
correct string of no characters: `none`.
-/

namespace Relock

/-- A quoted text, unless no characters correspond to it. -/
abbrev Quoted := Option String

/-- A JSON value. -/
inductive Json where
  | null
  | bool (value : Bool)
  | number (text : List Char)
  | string (text : Quoted)
  | array (items : List Json)
  | object (members : List (Quoted × Json))

namespace Json

def hexDigit (n : Nat) : Char :=
  Nat.digitChar (n % 16)

/-- A character inside quotes: quotes, backslashes and control characters are escaped. -/
def escape (c : Char) : List Char :=
  match c with
  | '"' => ['\\', '"']
  | '\\' => ['\\', '\\']
  | '\x08' => ['\\', 'b']
  | '\x0c' => ['\\', 'f']
  | '\n' => ['\\', 'n']
  | '\r' => ['\\', 'r']
  | '\t' => ['\\', 't']
  | c =>
    if c.toNat < 0x20 then ['\\', 'u', '0', '0', hexDigit (c.toNat / 16), hexDigit c.toNat]
    else [c]

def quote (s : String) : List Char :=
  '"' :: s.toList.flatMap escape ++ ['"']

def text (s : String) : Json := string (some s)

def record (members : List (String × Json)) : Json :=
  object (members.map fun (name, value) => (some name, value))

mutual

/-- Writes a value without blanks. -/
def compact : Json → List Char
  | null => ['n', 'u', 'l', 'l']
  | bool true => ['t', 'r', 'u', 'e']
  | bool false => ['f', 'a', 'l', 's', 'e']
  | number text => text
  | string text => quote (text.getD "")
  | array items => '[' :: compactItems items ++ [']']
  | object members => '{' :: compactMembers members ++ ['}']

/-- Writes the items of an array, with commas between them. -/
def compactItems : List Json → List Char
  | [] => []
  | [item] => compact item
  | item :: items => compact item ++ ',' :: compactItems items

/-- Writes the members of an object, with commas between them. -/
def compactMembers : List (Quoted × Json) → List Char
  | [] => []
  | [(name, value)] => quote (name.getD "") ++ ':' :: compact value
  | (name, value) :: members =>
    quote (name.getD "") ++ ':' :: compact value ++ ',' :: compactMembers members

end

end Json

end Relock
