import Relock.Yaml.Scalar

/-!
# YAML tokens

The signs and texts that a YAML text consists of, and the readers of those that are longer than a
sign: directives, tags, and the names of anchors and aliases.

An anchor is given a number in place of its name: as many different names as were given to anchors
before it. An alias has the number of the anchor that its name was last given to. So a name that is
used twice can share a number with a new one; a number belongs to the last node that has it.
-/

namespace Relock.Yaml

/-- A sign or a text. -/
inductive Token where
  | versionDirective (major minor : Nat)
  | tagDirective (handle : List Char)
  | documentStart
  | documentEnd
  /-- The beginning of a sequence without brackets. -/
  | blockSequence
  /-- The beginning of a mapping without brackets. -/
  | blockMapping
  /-- The end of a collection without brackets. -/
  | blockEnd
  | openSequence
  | closeSequence
  | openMapping
  | closeMapping
  /-- The dash before an item. -/
  | item
  /-- The comma between items or pairs. -/
  | comma
  /-- The beginning of a key, which may have no sign. -/
  | key
  /-- The colon after a key. -/
  | colon
  | anchor (number : Nat)
  | reference (number : Nat)
  | tag (handle : List Char)
  /-- A text, in quotes or plain. -/
  | scalar (text : List Char) (isPlain : Bool)
deriving DecidableEq

namespace Token

/-! ## Directives -/

/-- The most digits that a number of a version may have. -/
def maxVersionDigits : Nat := 9

/-- Reads a number of a version. -/
def versionNumber? (cs : List Char) : Option (Nat × List Char) :=
  let digits := cs.takeWhile Char.isDigit
  if digits.isEmpty ∨ maxVersionDigits < digits.length then none
  else some (Nat.ofDigitChars 10 digits 0, cs.drop digits.length)

/-- Reads the version that a directive declares. -/
def version? (cs : List Char) : Option (Token × List Char) := do
  match ← versionNumber? (cs.dropWhile isSpace) with
  | (major, '.' :: cs) =>
    let (minor, cs) ← versionNumber? cs
    return (versionDirective major minor, cs)
  | _ => none

/-- The signs that may stand in a tag. -/
def isTagSign (c : Char) : Bool :=
  isNameChar c || ";/?:@&=+$.%!~*'()".toList.contains c

/-- The signs that may stand in a tag between angle brackets. -/
def isLongTagSign (c : Char) : Bool :=
  isTagSign c || c == ',' || c == '[' || c == ']'

/-- How many bytes a character has in UTF-8 whose first byte is `n`. -/
def sequenceLength? (n : Nat) : Option Nat :=
  if n < 0x80 then some 1
  else if 0xC0 ≤ n ∧ n < 0xE0 then some 2
  else if 0xE0 ≤ n ∧ n < 0xF0 then some 3
  else if 0xF0 ≤ n ∧ n < 0xF8 then some 4
  else none

/-- Drops `n` bytes that are written as a percent sign and two digits and go on with a character. -/
def dropBytes? : Nat → List Char → Option (List Char)
  | 0, cs => some cs
  | n + 1, '%' :: a :: b :: cs => do
    let byte := (← Text.hexValue? a) * 16 + (← Text.hexValue? b)
    if 0x80 ≤ byte ∧ byte < 0xC0 then dropBytes? n cs else none
  | _ + 1, _ => none

/-- Drops a character that is written as its bytes. -/
def dropEscape? : List Char → Option (List Char)
  | '%' :: a :: b :: cs => do
    let n ← sequenceLength? ((← Text.hexValue? a) * 16 + (← Text.hexValue? b))
    dropBytes? (n - 1) cs
  | _ => none

/-- Drops the signs of a tag, at most `room`. -/
def dropTag? (isSign : Char → Bool) : Nat → List Char → Option (List Char)
  | 0, cs => some cs
  | room + 1, cs =>
    match cs with
    | [] => some []
    | c :: rest =>
      if c = '%' then (dropEscape? cs).bind (dropTag? isSign room)
      else if isSign c then dropTag? isSign room rest
      else some cs

/-- Drops the signs of a tag, of which there must be one. -/
def dropSomeTag? (isSign : Char → Bool) (cs : List Char) : Option (List Char) :=
  if cs.head?.any isSign then dropTag? isSign cs.length cs else none

/-- Reads an exclamation mark and a name that may follow it, with the mark that may follow that. -/
def handle? : List Char → Option (List Char × List Char)
  | '!' :: cs =>
    let name := cs.takeWhile isNameChar
    match cs.dropWhile isNameChar with
    | '!' :: rest => some ('!' :: name ++ ['!'], rest)
    | rest => some ('!' :: name, rest)
  | _ => none

/-- Whether a handle is `!` or has a mark at both ends. -/
def isClosed (handle : List Char) : Bool :=
  handle.length == 1 || handle.getLast? == some '!'

/-- Reads the abbreviation that a directive declares for tags. -/
def abbreviation? (cs : List Char) : Option (Token × List Char) := do
  let (handle, cs) ← handle? (cs.dropWhile isSpace)
  if !isClosed handle || !cs.head?.any isSpace then none
  else
    let cs ← dropSomeTag? isLongTagSign (cs.dropWhile isSpace)
    if beginsWithGap cs then return (tagDirective handle, cs) else none

/-- Reads a directive and the rest of its line. -/
def directive? (c : Cursor) : Option (Token × Cursor) := do
  let cs := c.rest.drop 1
  let name := cs.takeWhile isNameChar
  let cs := cs.dropWhile isNameChar
  if !beginsWithGap cs then none
  else
    let (token, cs) ←
      if name = "YAML".toList then version? cs
      else if name = "TAG".toList then abbreviation? cs
      else none
    return (token, ← (c.skipTo cs).endLine?)

/-! ## Properties of nodes -/

/-- Reads a tag and gives its handle, which is empty if the tag is not abbreviated. -/
def tagHandle? (cs : List Char) : Option (List Char × List Char) :=
  match cs with
  | '!' :: '<' :: cs => do
    match ← dropSomeTag? isLongTagSign cs with
    | '>' :: cs => some ([], cs)
    | _ => none
  | cs => do
    let (handle, rest) ← handle? cs
    if handle.length ≠ 1 ∧ isClosed handle then
      return (handle, ← dropSomeTag? isTagSign rest)
    else
      let rest ← dropTag? isTagSign rest.length rest
      return (if handle.length = 1 ∧ rest.length + 1 = cs.length then [] else ['!'], rest)

/-- Reads a tag. -/
def tag? (inBrackets : Bool) (c : Cursor) : Option (Token × Cursor) := do
  let (handle, rest) ← tagHandle? c.rest
  if beginsWithGap rest || (inBrackets && rest.head? == some ',') then
    return (tag handle, c.skipTo rest)
  else none

/-- The signs that may follow the name of an anchor or an alias. -/
def mayFollowName (cs : List Char) : Bool :=
  beginsWithGap cs || cs.head?.any "?:,]\x7d%@`".toList.contains

/-- Reads the name of an anchor or an alias, from the sign before it on. -/
def name? (c : Cursor) : Option (List Char × Cursor) :=
  let name := (c.rest.drop 1).takeWhile isNameChar
  let rest := c.rest.drop (name.length + 1)
  if name.isEmpty || !mayFollowName rest then none else some (name, c.skipTo rest)

end Token

end Relock.Yaml
