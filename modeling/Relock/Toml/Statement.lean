import Relock.Toml.Number
import Relock.Toml.Quoted
import Relock.Toml.Value

/-!
# The statements of a TOML text

A TOML text is a list of statements: the header of a table, the header of an element of an array of
tables, or a value under a key. A key is a path of parts joined by dots.

* `Item` is a value as it is written; a table on one line keeps the paths of its keys, since what
  they mean depends on one another.
* `statements?` reads all statements of a text.

Arrays and tables may stand inside one another `maxDepth` deep, and a key may have as many parts.
-/

namespace Relock.Toml

/-- A key: the parts of a path. -/
abbrev Key := List String

/-- A value as it is written. -/
inductive Item where
  /-- A text, a truth value, a number or a date. -/
  | plain (value : Toml)
  | array (items : List Item)
  | table (pairs : List (Key × Item))

/-- A line of a TOML text that says something. -/
inductive Statement where
  | header (key : Key)
  | elementHeader (key : Key)
  | pair (key : Key) (item : Item)

/-- How deep arrays and tables may stand inside one another, and how many parts a key may have. -/
def maxDepth : Nat := 79

namespace Statement

open Quoted (isSpace isLineChar dropLineEnd?)

def skipSpaces (cs : List Char) : List Char :=
  cs.dropWhile isSpace

/-- Drops a comment at the front, if there is one, up to the end of the line. -/
def skipComment : List Char → List Char
  | '#' :: cs => cs.dropWhile isLineChar
  | cs => cs

/-- Drops what may follow a statement on its line, and the line end or the end of the text. -/
def endLine? (cs : List Char) : Option (List Char) :=
  match skipComment (skipSpaces cs) with
  | [] => some []
  | rest => dropLineEnd? rest

/-- Drops spaces, tabs, line ends and comments with their line ends; `room` of them at most. -/
def skipBlank? : Nat → List Char → Option (List Char)
  | 0, cs => some cs
  | room + 1, cs =>
    match skipSpaces cs with
    | '#' :: rest => (dropLineEnd? (skipComment ('#' :: rest))).bind (skipBlank? room)
    | '\n' :: rest => skipBlank? room rest
    | '\r' :: rest => (dropLineEnd? ('\r' :: rest)).bind (skipBlank? room)
    | rest => some rest

/-- A character of a key without quotes. -/
def isKeyChar (c : Char) : Bool :=
  c.isAlphanum || c == '-' || c == '_'

/-- Reads one part of a key. -/
def keyPart? (cs : List Char) : Option (String × List Char) :=
  match cs with
  | '"' :: _ => (Quoted.readLine? cs).map (·.map String.ofList id)
  | '\'' :: _ => (Quoted.readLine? cs).map (·.map String.ofList id)
  | cs =>
    match cs.takeWhile isKeyChar with
    | [] => none
    | part => some (String.ofList part, cs.dropWhile isKeyChar)

/-- Reads a key of at most `room` parts, with the blanks around them. -/
def key? : Nat → List Char → Option (Key × List Char)
  | 0, _ => none
  | room + 1, cs => do
    let (part, cs) ← keyPart? (skipSpaces cs)
    match skipSpaces cs with
    | '.' :: cs => (key? room cs).map (·.map (part :: ·) id)
    | cs => some ([part], cs)

/-- Reads `room` items of an array at most, and its end. -/
def items? (item? : List Char → Option (Item × List Char)) :
    Nat → List Char → Option (List Item × List Char)
  | 0, _ => none
  | room + 1, cs => do
    match ← skipBlank? cs.length cs with
    | ']' :: cs => return ([], cs)
    | cs =>
      let (item, cs) ← item? cs
      match ← skipBlank? cs.length cs with
      | ',' :: cs => (items? item? room cs).map (·.map (item :: ·) id)
      | ']' :: cs => return ([item], cs)
      | _ => none

/-- Reads a key, the sign after it and an item. -/
def pair? (item? : List Char → Option (Item × List Char)) (cs : List Char) :
    Option ((Key × Item) × List Char) := do
  match ← key? maxDepth cs with
  | (key, '=' :: cs) =>
    let (item, cs) ← item? (skipSpaces cs)
    return ((key, item), cs)
  | _ => none

/-- Reads `room` pairs of a table on one line at most, and its end. -/
def pairs? (item? : List Char → Option (Item × List Char)) :
    Nat → List Char → Option (List (Key × Item) × List Char)
  | 0, _ => none
  | room + 1, cs => do
    let (entry, cs) ← pair? item? cs
    match skipSpaces cs with
    | ',' :: cs => (pairs? item? room cs).map (·.map (entry :: ·) id)
    | '}' :: cs => return ([entry], cs)
    | _ => none

/-- Reads a table on one line, from the character after its opening brace on. -/
def inlineTable? (item? : List Char → Option (Item × List Char)) (cs : List Char) :
    Option (Item × List Char) :=
  match skipSpaces cs with
  | '}' :: cs => some (.table [], cs)
  | cs => (pairs? item? cs.length cs).map (·.map .table id)

/-- Reads a number or a date. -/
def number? (cs : List Char) : Option (Item × List Char) :=
  (Number.read? cs).map fun (text, isDate, rest) =>
    (.plain (if isDate then .date text else .number text), rest)

/-- Reads an item whose own items are read by `inner?`. -/
def itemWith? (inner? : List Char → Option (Item × List Char)) (cs : List Char) :
    Option (Item × List Char) :=
  match cs with
  | '"' :: _ => (Quoted.read? cs).map (·.map (.plain ∘ .string ∘ String.ofList) id)
  | '\'' :: _ => (Quoted.read? cs).map (·.map (.plain ∘ .string ∘ String.ofList) id)
  | '[' :: cs => (items? inner? (cs.length + 1) cs).map (·.map .array id)
  | '{' :: cs => inlineTable? inner? cs
  | 't' :: 'r' :: 'u' :: 'e' :: cs => some (.plain (.boolean true), cs)
  | 'f' :: 'a' :: 'l' :: 's' :: 'e' :: cs => some (.plain (.boolean false), cs)
  | cs => number? cs

/-- Reads an item with arrays and tables at most `depth` deep. -/
def item? : Nat → List Char → Option (Item × List Char)
  | 0, cs =>
    if cs.head? = some '[' ∨ cs.head? = some '{' then none else itemWith? (fun _ => none) cs
  | depth + 1, cs => itemWith? (item? depth) cs

/-- Reads the statement at the front of `cs` and the rest of its line. -/
def read? (cs : List Char) : Option (Statement × List Char) := do
  match cs with
  | '[' :: '[' :: cs =>
    match ← key? maxDepth cs with
    | (key, ']' :: ']' :: cs) => return (.elementHeader key, ← endLine? cs)
    | _ => none
  | '[' :: cs =>
    match ← key? maxDepth cs with
    | (key, ']' :: cs) => return (.header key, ← endLine? cs)
    | _ => none
  | cs =>
    let ((key, item), cs) ← pair? (item? maxDepth) cs
    return (.pair key item, ← endLine? cs)

/-- Reads `room` statements at most, to the end of the text. -/
def readAll? : Nat → List Char → Option (List Statement)
  | 0, _ => none
  | room + 1, cs =>
    match skipSpaces cs with
    | [] => some []
    | '#' :: rest => (endLine? ('#' :: rest)).bind (readAll? room)
    | '\n' :: rest => readAll? room rest
    | '\r' :: rest => (dropLineEnd? ('\r' :: rest)).bind (readAll? room)
    | cs => do
      let (statement, cs) ← read? cs
      return statement :: (← readAll? room cs)

end Statement

def byteOrderMark : Char := '\uFEFF'

/-- The statements of a text. -/
def statements? (text : String) : Option (List Statement) :=
  let cs := text.toList
  let cs := if cs.head? = some byteOrderMark then cs.drop 1 else cs
  Statement.readAll? (cs.length + 1) cs

end Relock.Toml
