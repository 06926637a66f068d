import Relock.Yaml.Token

/-!
# Cutting YAML into tokens

What a character means in YAML depends on what stands before it: on the brackets that are open, on
the columns by which the collections around it are indented, and on whether a key may begin. `Scan`
is that state with the tokens found so far, `Scan.next?` finds the next one, and `tokens?` all of
them.

A key has no sign of its own: only the colon after it tells, and then the token of the key is put in
front of what was found since. The colon must stand in the same line, and at most `maxKeySize` bytes
after the beginning of the key.
-/

namespace Relock.Yaml

/-- A place where a key may have begun. -/
structure KeyStart where
  /-- Whether nothing but a key can stand there. -/
  isRequired : Bool
  /-- The number of tokens before it. -/
  position : Nat
  line : Nat
  column : Nat
  offset : Nat

/-- How far a text has been cut into tokens. -/
structure Scan where
  cursor : Cursor
  /-- The tokens found, the last first. -/
  found : List Token
  /-- The columns of the open collections without brackets, the innermost first. -/
  indents : List Nat
  /-- The last place inside the innermost brackets where a key may have begun. -/
  keyStart : Option KeyStart
  /-- Such places outside of them, for each pair of brackets around. -/
  outerKeyStarts : List (Option KeyStart)
  /-- Whether a key may begin here. -/
  mayBeginKey : Bool
  /-- The names of anchors, each with the number it was last given; the last first. -/
  anchors : List (List Char × Nat)

namespace Scan

/-- The longest distance from the beginning of a key to its colon. -/
def maxKeySize : Nat := 1024

def start (cursor : Cursor) : Scan := ⟨cursor, [], [], none, [], true, []⟩

def inBrackets (s : Scan) : Bool := !s.outerKeyStarts.isEmpty

def indent? (s : Scan) : Option Nat := s.indents.head?

/-- The column from which on something can belong to that collection. -/
def innerIndent (s : Scan) : Nat := s.indent?.elim 0 (· + 1)

def emit (token : Token) (s : Scan) : Scan := { s with found := token :: s.found }

def skip (n : Nat) (s : Scan) : Scan := { s with cursor := s.cursor.skip n }

def allowKey (may : Bool) (s : Scan) : Scan := { s with mayBeginKey := may }

/-- Puts a token in front of all that were found since the first `position` ones. -/
def insertAt (position : Nat) (token : Token) (s : Scan) : Scan :=
  let since := s.found.length - position
  { s with found := s.found.take since ++ token :: s.found.drop since }

/-! ## Indentation -/

/-- The collections that end before a column; all of them if there is none. -/
def closed (column : Option Nat) (indents : List Nat) : List Nat :=
  indents.takeWhile fun indent => column.all (· < indent)

/-- Ends the collections without brackets that are indented further than a column. -/
def unindent (column : Option Nat) (s : Scan) : Scan :=
  if s.inBrackets then s
  else
    let n := (closed column s.indents).length
    { s with indents := s.indents.drop n, found := List.replicate n .blockEnd ++ s.found }

/-- Begins a collection without brackets in a column, in front of the tokens from `position` on,
unless one has begun there already. -/
def indentTo (column position : Nat) (token : Token) (s : Scan) : Scan :=
  if s.inBrackets || s.indent?.any (column ≤ ·) then s
  else { (s.insertAt position token) with indents := column :: s.indents }

/-- Begins a collection without brackets at the cursor. -/
def indentHere (token : Token) (s : Scan) : Scan :=
  s.indentTo s.cursor.column s.found.length token

/-! ## Keys -/

/-- Gives up a place where no key has begun; none if there had to be one. -/
def giveUp? : Option KeyStart → Option (Option KeyStart)
  | none => some none
  | some k => if k.isRequired then none else some none

/-- Whether the colon of a key that began at a place could still stand at a cursor. -/
def isFresh (c : Cursor) (k : KeyStart) : Bool :=
  k.line == c.line && c.offset ≤ k.offset + maxKeySize

/-- Gives up a place that has been left too far behind. -/
def expire? (c : Cursor) : Option KeyStart → Option (Option KeyStart)
  | none => some none
  | some k => if isFresh c k then some (some k) else giveUp? (some k)

/-- Gives up all such places. -/
def expireAll? (s : Scan) : Option Scan := do
  let keyStart ← expire? s.cursor s.keyStart
  let outerKeyStarts ← s.outerKeyStarts.mapM (expire? s.cursor)
  return { s with keyStart, outerKeyStarts }

/-- Gives up the last place inside the innermost brackets. -/
def dropKeyStart? (s : Scan) : Option Scan := do
  return { s with keyStart := ← giveUp? s.keyStart }

/-- Notes that a key may have begun at the cursor. -/
def noteKeyStart? (s : Scan) : Option Scan :=
  if s.mayBeginKey then do
    let s ← s.dropKeyStart?
    let c := s.cursor
    let isRequired := !s.inBrackets && s.indent? == some c.column
    return { s with keyStart := some ⟨isRequired, s.found.length, c.line, c.column, c.offset⟩ }
  else some s

/-! ## Between tokens -/

/-- Moves over blanks, comments and line ends; at most `room` lines. Tabs do not count as blanks
where a key may begin, except in brackets. -/
def skipGaps : Nat → Scan → Scan
  | 0, s => s
  | room + 1, s =>
    let isBlank (c : Char) : Bool := c == ' ' || (c == '\t' && (s.inBrackets || !s.mayBeginKey))
    let c := (s.cursor.skipWhile isBlank).skipComment
    match c.takeBreak? with
    | none => { s with cursor := c }
    | some (_, c) =>
      skipGaps room { s with cursor := c, mayBeginKey := s.mayBeginKey || !s.inBrackets }

/-! ## Tokens -/

/-- A token that ends all collections without brackets, and is a sign of three characters. -/
def limit? (token : Token) (s : Scan) : Option Scan := do
  return (((← (s.unindent none).dropKeyStart?).allowKey false).skip 3).emit token

/-- A directive. -/
def directive? (s : Scan) : Option Scan := do
  let s := (← (s.unindent none).dropKeyStart?).allowKey false
  let (token, cursor) ← Token.directive? s.cursor
  return { s with cursor }.emit token

/-- An opening bracket. -/
def openBracket? (token : Token) (s : Scan) : Option Scan := do
  let s ← s.noteKeyStart?
  let s := { s with keyStart := none, outerKeyStarts := s.keyStart :: s.outerKeyStarts }
  return ((s.allowKey true).skip 1).emit token

/-- A closing bracket, for which none needs to be open. -/
def closeBracket? (token : Token) (s : Scan) : Option Scan := do
  let s ← s.dropKeyStart?
  let s := match s.outerKeyStarts with
    | [] => s
    | keyStart :: outerKeyStarts => { s with keyStart, outerKeyStarts }
  return ((s.allowKey false).skip 1).emit token

/-- A comma. -/
def comma? (s : Scan) : Option Scan := do
  return (((← s.dropKeyStart?).allowKey true).skip 1).emit .comma

/-- Begins a collection without brackets where one may begin. -/
def beginBlock? (token : Token) (s : Scan) : Option Scan :=
  if s.inBrackets then some s
  else if s.mayBeginKey then some (s.indentHere token)
  else none

/-- The dash before an item. -/
def item? (s : Scan) : Option Scan := do
  let s ← (← s.beginBlock? .blockSequence).dropKeyStart?
  return ((s.allowKey true).skip 1).emit .item

/-- The question mark before a key. -/
def key? (s : Scan) : Option Scan := do
  let s ← (← s.beginBlock? .blockMapping).dropKeyStart?
  return ((s.allowKey (!s.inBrackets)).skip 1).emit .key

/-- The colon after a key. -/
def colon? (s : Scan) : Option Scan :=
  match s.keyStart with
  | some k =>
    let s := (s.insertAt k.position .key).indentTo k.column k.position .blockMapping
    some ((({ s with keyStart := none }.allowKey false).skip 1).emit .colon)
  | none => do
    let s ← s.beginBlock? .blockMapping
    return ((s.allowKey (!s.inBrackets)).skip 1).emit .colon

/-- The number of a name that is given to an anchor now. -/
def nextNumber (s : Scan) : Nat :=
  (s.anchors.map (·.1)).eraseDups.length

/-- An anchor. -/
def anchor? (s : Scan) : Option Scan := do
  let s := (← s.noteKeyStart?).allowKey false
  let (name, cursor) ← Token.name? s.cursor
  let number := s.nextNumber
  return { s with cursor, anchors := (name, number) :: s.anchors }.emit (.anchor number)

/-- An alias of an anchor before it. -/
def reference? (s : Scan) : Option Scan := do
  let s := (← s.noteKeyStart?).allowKey false
  let (name, cursor) ← Token.name? s.cursor
  return { s with cursor }.emit (.reference (← s.anchors.lookup name))

/-- A tag. -/
def tag? (s : Scan) : Option Scan := do
  let s := (← s.noteKeyStart?).allowKey false
  let (token, cursor) ← Token.tag? s.inBrackets s.cursor
  return { s with cursor }.emit token

/-- A block of lines. -/
def block? (folded : Bool) (s : Scan) : Option Scan := do
  let s := (← s.dropKeyStart?).allowKey true
  let (text, cursor) ← Scalar.block? folded s.indent? s.cursor
  return { s with cursor }.emit (.scalar text false)

/-- A text in quotes. -/
def quoted? (quote : Char) (s : Scan) : Option Scan := do
  let s := (← s.noteKeyStart?).allowKey false
  let (text, cursor) ← Scalar.quoted? quote s.cursor
  return { s with cursor }.emit (.scalar text false)

/-- A text without quotes. -/
def plain? (s : Scan) : Option Scan := do
  let s := (← s.noteKeyStart?).allowKey false
  let plain ← Scalar.plain? s.inBrackets s.innerIndent s.cursor
  return ({ s with cursor := plain.cursor }.allowKey plain.endedLine).emit (.scalar plain.text true)

/-- The characters that cannot begin a plain text. -/
def isIndicator (c : Char) : Bool :=
  "-?:,[]\x7b\x7d#&*!|>'\"%@`".toList.contains c

/-- Whether a plain text begins here. -/
def beginsPlain (inBrackets : Bool) (c : Char) (rest : List Char) : Bool :=
  (!isGap c && !isIndicator c) || (c == '-' && !rest.head?.any isSpace) ||
    (!inBrackets && (c == '?' || c == ':') && !beginsWithGap rest)

/-- Finds the token that begins with a character. -/
def token? (c : Char) (rest : List Char) (s : Scan) : Option Scan :=
  let isSign := beginsWithGap rest
  if s.cursor.column = 0 ∧ c = '%' then s.directive?
  else if s.cursor.isAtLimit '-' then s.limit? .documentStart
  else if s.cursor.isAtLimit '.' then s.limit? .documentEnd
  else if c = '[' then s.openBracket? .openSequence
  else if c = '\x7b' then s.openBracket? .openMapping
  else if c = ']' then s.closeBracket? .closeSequence
  else if c = '\x7d' then s.closeBracket? .closeMapping
  else if c = ',' then s.comma?
  else if c = '-' ∧ isSign then s.item?
  else if c = '?' ∧ (s.inBrackets ∨ isSign) then s.key?
  else if c = ':' ∧ (s.inBrackets ∨ isSign) then s.colon?
  else if c = '*' then s.reference?
  else if c = '&' then s.anchor?
  else if c = '!' then s.tag?
  else if c = '|' ∧ !s.inBrackets then s.block? false
  else if c = '>' ∧ !s.inBrackets then s.block? true
  else if c = '\'' then s.quoted? '\''
  else if c = '"' then s.quoted? '"'
  else if beginsPlain s.inBrackets c rest then s.plain?
  else none

/-- Moves to the next token, or to the end of the text. -/
def settle? (s : Scan) : Option Scan := do
  let s ← (s.skipGaps (s.cursor.rest.length + 1)).expireAll?
  return s.unindent (some s.cursor.column)

/-- Finds `room` tokens at most, to the end of the text. -/
def run? : Nat → Scan → Option (List Token)
  | 0, _ => none
  | room + 1, s => do
    let s ← s.settle?
    match s.cursor.rest with
    | [] => return (← (s.unindent none).dropKeyStart?).found.reverse
    | c :: rest => (s.token? c rest).bind (run? room)

end Scan

/-- The mark that may stand in front of a text in UTF-8. -/
def byteOrderMark : Char := '\uFEFF'

/-- The beginning of a text. A mark in front of it does not count, but it takes up a column, so that
nothing on another line can be indented as much. -/
def beginning (cs : List Char) : Cursor :=
  if cs.head? = some byteOrderMark then (Cursor.start cs).skip 1 else .start cs

/-- The tokens of a text. -/
def tokens? (text : String) : Option (List Token) :=
  let cs := text.toList
  if cs.all isAllowed then Scan.run? (cs.length + 1) (.start (beginning cs)) else none

end Relock.Yaml
