import Relock.Text.Digit

/-!
# Quoted text in TOML

Four ways to quote a text: basic quotes with escapes and literal ones without, each on one line or
over several.

* `read?` reads a quoted text of any of the four kinds, `readLine?` one of a single line, which is
  what a key may be. A line end inside a text is a line feed, whichever way it is written.
* `quote` writes a text: between basic quotes if nothing has to be escaped and no quote stands in
  it, else between literal quotes if these can hold it, else over several lines if that needs no
  escapes, and with escapes only where there is no other way.
-/

namespace Relock.Toml.Quoted

def isWide (c : Char) : Bool := 0x80 ≤ c.toNat

def isSpace (c : Char) : Bool := c == ' ' || c == '\t'

/-- A character that stands for itself on a line: no control character except the tab. -/
def isLineChar (c : Char) : Bool :=
  c == '\t' || (0x20 ≤ c.toNat && c.toNat ≤ 0x7E) || isWide c

/-- The text after a line end at the front of `cs`. -/
def dropLineEnd? : List Char → Option (List Char)
  | '\n' :: cs => some cs
  | '\r' :: '\n' :: cs => some cs
  | _ => none

/-- The number that `n` digits of base sixteen at the front of `cs` make, after `value`. -/
def hexNumber? : Nat → Nat → List Char → Option (Nat × List Char)
  | 0, value, cs => some (value, cs)
  | n + 1, value, c :: cs => (Text.hexValue? c).bind fun d => hexNumber? n (value * 16 + d) cs
  | _ + 1, _, [] => none

/-- The character of a number; surrogates and numbers beyond Unicode have none. -/
def char? (n : Nat) : Option Char :=
  if n.isValidChar then some (Char.ofNat n) else none

/-- The character that an escape stands for, from the letter after the backslash on. -/
def escape? : List Char → Option (Char × List Char)
  | 'b' :: cs => some ('\x08', cs)
  | 'f' :: cs => some ('\x0c', cs)
  | 'n' :: cs => some ('\n', cs)
  | 'r' :: cs => some ('\r', cs)
  | 't' :: cs => some ('\t', cs)
  | '"' :: cs => some ('"', cs)
  | '\\' :: cs => some ('\\', cs)
  | 'u' :: cs => do
    let (n, cs) ← hexNumber? 4 0 cs
    return (← char? n, cs)
  | 'U' :: cs => do
    let (n, cs) ← hexNumber? 8 0 cs
    return (← char? n, cs)
  | _ => none

/-- Reads `room` pieces at most of a basic text on one line, up to its closing quote. -/
def basicLine? : Nat → List Char → Option (List Char × List Char)
  | 0, _ => none
  | _ + 1, '"' :: cs => some ([], cs)
  | room + 1, '\\' :: cs => do
    let (c, cs) ← escape? cs
    let (text, cs) ← basicLine? room cs
    return (c :: text, cs)
  | room + 1, c :: cs => if isLineChar c then (basicLine? room cs).map (·.map (c :: ·) id) else none
  | _ + 1, [] => none

/-- Reads a literal text on one line, up to its closing quote. -/
def literalLine? : List Char → Option (List Char × List Char)
  | '\'' :: cs => some ([], cs)
  | c :: cs => if isLineChar c then (literalLine? cs).map (·.map (c :: ·) id) else none
  | [] => none

/-- Drops line ends, spaces and tabs. -/
def skipLineEnds : List Char → List Char
  | '\n' :: cs => skipLineEnds cs
  | '\r' :: '\n' :: cs => skipLineEnds cs
  | ' ' :: cs => skipLineEnds cs
  | '\t' :: cs => skipLineEnds cs
  | cs => cs

/-- The end of a text over several lines, with `quotes` of its quotes at the front of what is left:
up to two more than the closing three belong to the text. -/
def closing? (quote : Char) (cs : List Char) : Option (List Char × List Char) :=
  let quotes := (cs.takeWhile (· == quote)).length
  if quotes < 3 then none
  else
    let inside := min (quotes - 3) 2
    some (List.replicate inside quote, cs.drop (inside + 3))

/-- Reads `room` pieces at most of a basic text over several lines, up to its closing quotes. -/
def basicLines? : Nat → List Char → Option (List Char × List Char)
  | 0, _ => none
  | room + 1, cs =>
    match cs with
    | '"' :: rest => (closing? '"' cs).or ((basicLines? room rest).map (·.map ('"' :: ·) id))
    | '\\' :: rest =>
      match dropLineEnd? (rest.dropWhile isSpace) with
      | some rest => basicLines? room (skipLineEnds rest)
      | none => do
        let (c, rest) ← escape? rest
        let (text, rest) ← basicLines? room rest
        return (c :: text, rest)
    | c :: rest =>
      match dropLineEnd? cs with
      | some rest => (basicLines? room rest).map (·.map ('\n' :: ·) id)
      | none => if isLineChar c then (basicLines? room rest).map (·.map (c :: ·) id) else none
    | [] => none

/-- Reads `room` pieces at most of a literal text over several lines, up to its closing quotes. -/
def literalLines? : Nat → List Char → Option (List Char × List Char)
  | 0, _ => none
  | room + 1, cs =>
    match cs with
    | '\'' :: rest => (closing? '\'' cs).or ((literalLines? room rest).map (·.map ('\'' :: ·) id))
    | c :: rest =>
      match dropLineEnd? cs with
      | some rest => (literalLines? room rest).map (·.map ('\n' :: ·) id)
      | none => if isLineChar c then (literalLines? room rest).map (·.map (c :: ·) id) else none
    | [] => none

/-- A text without the line end that may stand in front of it. -/
def dropFirstLineEnd (cs : List Char) : List Char :=
  (dropLineEnd? cs).getD cs

/-- Reads a quoted text on one line. -/
def readLine? : List Char → Option (List Char × List Char)
  | '"' :: cs => basicLine? (cs.length + 1) cs
  | '\'' :: cs => literalLine? cs
  | _ => none

/-- Reads a quoted text. -/
def read? : List Char → Option (List Char × List Char)
  | '"' :: '"' :: '"' :: cs => basicLines? (cs.length + 1) (dropFirstLineEnd cs)
  | '\'' :: '\'' :: '\'' :: cs => literalLines? (cs.length + 1) (dropFirstLineEnd cs)
  | cs => readLine? cs

/-! ## Writing -/

/-- The length of the longest run of `quote`, when `run` of them stand before `cs`. -/
def longestRun (quote : Char) (run : Nat) : List Char → Nat
  | [] => run
  | c :: cs =>
    if c = quote then longestRun quote (run + 1) cs else max run (longestRun quote 0 cs)

/-- A control character that no quotes can hold as it is. -/
def isControl (c : Char) : Bool :=
  c != '\t' && c != '\n' && (c.toNat < 0x20 || c == '\x7f')

/-- What bears on the choice of quotes. -/
structure Shape where
  basicRun : Nat
  literalRun : Nat
  hasControl : Bool
  hasBackslash : Bool
  hasLineFeed : Bool

/-- The shape of a text. -/
def Shape.of (cs : List Char) : Shape where
  basicRun := longestRun '"' 0 cs
  literalRun := longestRun '\'' 0 cs
  hasControl := cs.any isControl
  hasBackslash := cs.contains '\\'
  hasLineFeed := cs.contains '\n'

/-- A digit of base sixteen in capitals. -/
def upperHexDigit (n : Nat) : Char :=
  (Nat.digitChar (n % 16)).toUpper

/-- An escape for a character between basic quotes, if it needs one. -/
def escape (c : Char) : List Char :=
  match c with
  | '\x08' => ['\\', 'b']
  | '\t' => ['\\', 't']
  | '\n' => ['\\', 'n']
  | '\x0c' => ['\\', 'f']
  | '\r' => ['\\', 'r']
  | '"' => ['\\', '"']
  | '\\' => ['\\', '\\']
  | c =>
    if isControl c then
      ['\\', 'u', '0', '0', upperHexDigit (c.toNat / 16), upperHexDigit c.toNat]
    else [c]

/-- A text between basic quotes over several lines: line feeds stand for themselves, and so do
quotes as long as fewer than three follow one another. `run` quotes stand before `cs`. -/
def escapeLines (run : Nat) : List Char → List Char
  | [] => []
  | c :: cs =>
    if c = '"' then
      if run < 2 then c :: escapeLines (run + 1) cs else '\\' :: c :: escapeLines 0 cs
    else if c = '\n' then c :: escapeLines 0 cs
    else escape c ++ escapeLines 0 cs

/-- Three quotes, and a line end after them if the text has more than one line. -/
def openLines (quote : Char) (shape : Shape) : List Char :=
  List.replicate 3 quote ++ if shape.hasLineFeed then ['\n'] else []

def basic (cs : List Char) : List Char := '"' :: cs.flatMap escape ++ ['"']

def literal (cs : List Char) : List Char := '\'' :: cs ++ ['\'']

def basicLines (shape : Shape) (cs : List Char) : List Char :=
  openLines '"' shape ++ escapeLines 0 cs ++ List.replicate 3 '"'

def literalLines (shape : Shape) (cs : List Char) : List Char :=
  openLines '\'' shape ++ cs ++ List.replicate 3 '\''

/-- Writes a text in quotes. -/
def quote (text : String) : List Char :=
  let cs := text.toList
  let shape := Shape.of cs
  let plain := !shape.hasControl && !shape.hasBackslash
  if plain && shape.basicRun = 0 && !shape.hasLineFeed then basic cs
  else if !shape.hasControl && shape.literalRun = 0 && !shape.hasLineFeed then literal cs
  else if plain && shape.basicRun ≤ 2 then basicLines shape cs
  else if !shape.hasControl && shape.literalRun ≤ 2 then literalLines shape cs
  else if shape.hasLineFeed then basicLines shape cs
  else basic cs

end Relock.Toml.Quoted
