/-!
# The cursor of YAML text

What YAML takes characters for, and a place in a text: what is left to be read, with the line and
the column that it begins in. Indentation is a matter of columns, and a key must not be followed by
its colon on another line, so every reading of YAML moves a cursor.
-/

namespace Relock.Yaml

/-- The characters that a text may hold. -/
def isAllowed (c : Char) : Bool :=
  let n := c.toNat
  n == 0x09 || n == 0x0A || n == 0x0D || (0x20 ≤ n && n ≤ 0x7E) || n == 0x85 ||
  (0xA0 ≤ n && n ≤ 0xD7FF) || (0xE000 ≤ n && n ≤ 0xFFFD) || 0x10000 ≤ n

def isSpace (c : Char) : Bool := c == ' ' || c == '\t'

def isBreak (c : Char) : Bool :=
  c == '\n' || c == '\r' || c == '\x85' || c == '\u2028' || c == '\u2029'

def isInLine (c : Char) : Bool := !isBreak c

def isGap (c : Char) : Bool := isSpace c || isBreak c

def isNameChar (c : Char) : Bool := c.isAlphanum || c == '-' || c == '_'

/-- The characters that structure collections in brackets. -/
def isBracketSign (c : Char) : Bool :=
  c == ',' || c == '[' || c == ']' || c == '\x7b' || c == '\x7d'

/-- Whether a text is over or begins with a gap. -/
def beginsWithGap (cs : List Char) : Bool :=
  match cs with
  | [] => true
  | c :: _ => isGap c

/-- Whether a text is over or begins with a line end. -/
def beginsWithBreak (cs : List Char) : Bool :=
  match cs with
  | [] => true
  | c :: _ => isBreak c

/-- A place in a text. -/
structure Cursor where
  /-- What is left to be read. -/
  rest : List Char
  line : Nat
  column : Nat
  /-- The length in UTF-8 of what has been read. -/
  offset : Nat

namespace Cursor

def start (cs : List Char) : Cursor := ⟨cs, 0, 0, 0⟩

def size (cs : List Char) : Nat :=
  cs.foldl (fun n c => n + c.utf8Size) 0

/-- Moves over `n` characters of a line. -/
def skip (n : Nat) (c : Cursor) : Cursor :=
  { c with
    rest := c.rest.drop n, column := c.column + n, offset := c.offset + size (c.rest.take n) }

def skipWhile (p : Char → Bool) (c : Cursor) : Cursor :=
  c.skip (c.rest.takeWhile p).length

/-- Moves on to `rest`, which is on the same line. -/
def skipTo (rest : List Char) (c : Cursor) : Cursor :=
  c.skip (c.rest.length - rest.length)

def nextLine (n : Nat) (c : Cursor) : Cursor :=
  ⟨c.rest.drop n, c.line + 1, 0, c.offset + size (c.rest.take n)⟩

/-- Reads a line end: it stands for a line feed, unless it is a separator of lines or
paragraphs. -/
def takeBreak? (c : Cursor) : Option (Char × Cursor) :=
  match c.rest with
  | '\r' :: '\n' :: _ => some ('\n', c.nextLine 2)
  | '\u2028' :: _ => some ('\u2028', c.nextLine 1)
  | '\u2029' :: _ => some ('\u2029', c.nextLine 1)
  | d :: _ => if isBreak d then some ('\n', c.nextLine 1) else none
  | [] => none

def skipBreak (c : Cursor) : Cursor :=
  c.takeBreak?.elim c (·.2)

def skipComment (c : Cursor) : Cursor :=
  if c.rest.head? = some '#' then c.skipWhile isInLine else c

/-- Whether three characters at the beginning of a line mark the limit of a document. -/
def isAtLimit (sign : Char) (c : Cursor) : Bool :=
  c.column == 0 && [sign, sign, sign].isPrefixOf c.rest && beginsWithGap (c.rest.drop 3)

/-- Whether a document begins or ends here. -/
def isAtDocumentLimit (c : Cursor) : Bool :=
  c.isAtLimit '-' || c.isAtLimit '.'

/-- Moves over what may follow on a line that says all it has to say, and over its end. -/
def endLine? (c : Cursor) : Option Cursor :=
  let c := (c.skipWhile isSpace).skipComment
  if beginsWithBreak c.rest then some c.skipBreak else none

end Cursor

end Relock.Yaml
