import Relock.Text.Digit
import Relock.Yaml.Cursor

/-!
# YAML scalars

The three ways of writing a text.

* `plain?` reads a text without quotes. It may go on in further lines that are indented, up to a
  comment or a character that structures the text around it.
* `quoted?` reads a text in single or double quotes.
* `block?` reads a text of whole lines, kept as they are or folded.

A line end between two words of the first two, or of a folded block, counts as a space; of several
line ends the first does not count.
-/

namespace Relock.Yaml.Scalar

open Cursor

/-! ## Gaps between words -/

/-- What stands between two words: line ends, or else spaces. -/
structure Gap where
  spaces : List Char
  breaks : List Char

namespace Gap

/-- What a gap contributes to a text. -/
def text (g : Gap) : List Char :=
  match g.breaks with
  | [] => g.spaces
  | ['\n'] => [' ']
  | '\n' :: more => more
  | breaks => breaks

end Gap

/-- Reads line ends and the spaces around them; at most `room` line ends. No tab may stand where
indentation by `indent` columns is due. -/
def breaks? (indent : Nat) : Nat → Cursor → Option (List Char × Cursor)
  | 0, c => some ([], c)
  | room + 1, c =>
    match c.takeBreak? with
    | none => some ([], c)
    | some (b, c) =>
      let spaces := c.rest.takeWhile isSpace
      if (spaces.take indent).contains '\t' then none
      else (breaks? indent room (c.skip spaces.length)).map (·.map (b :: ·) id)

/-- Reads the gap at the cursor. -/
def gap? (indent : Nat) (c : Cursor) : Option (Gap × Cursor) :=
  let spaces := c.rest.takeWhile isSpace
  let c := c.skip spaces.length
  (breaks? indent c.rest.length c).map fun (breaks, c) => (⟨spaces, breaks⟩, c)

/-! ## Plain -/

/-- The word at the front of a text, in brackets or not. -/
def word? (inBrackets : Bool) : List Char → Option (List Char)
  | [] => some []
  | c :: cs =>
    if isGap c then some []
    else if c = ':' ∧ inBrackets ∧ cs.head?.any (fun d => isBracketSign d || d == '?') then none
    else if (c = ':' ∧ beginsWithGap cs) ∨ (inBrackets ∧ isBracketSign c) then some []
    else (word? inBrackets cs).map (c :: ·)

/-- A plain text that has been read. -/
structure Plain where
  text : List Char
  /-- Whether it was followed by a line end. -/
  endedLine : Bool
  cursor : Cursor

/-- Reads `room` words at most of a plain text, after `text` and the gap `before`. -/
def words? (inBrackets : Bool) (indent : Nat) : Nat → List Char → Gap → Cursor → Option Plain
  | 0, text, before, c => some ⟨text, !before.breaks.isEmpty, c⟩
  | room + 1, text, before, c =>
    if c.isAtDocumentLimit || c.rest.head? == some '#' then
      some ⟨text, !before.breaks.isEmpty, c⟩
    else do
      let word ← word? inBrackets c.rest
      let c := c.skip word.length
      if word.isEmpty then return ⟨text, !before.breaks.isEmpty, c⟩
      let text := text ++ before.text ++ word
      let (gap, next) ← gap? indent c
      if gap.spaces.isEmpty && gap.breaks.isEmpty then return ⟨text, false, next⟩
      if !inBrackets && next.column < indent then return ⟨text, !gap.breaks.isEmpty, next⟩
      words? inBrackets indent room text gap next

/-- Reads a plain text that must be indented by `indent` columns from its second line on. -/
def plain? (inBrackets : Bool) (indent : Nat) (c : Cursor) : Option Plain :=
  words? inBrackets indent (c.rest.length + 1) [] ⟨[], []⟩ c

/-! ## Quoted -/

/-- The value of the `n` digits of base sixteen at the front of a text, after `value`. -/
def hexNumber? : Nat → Nat → List Char → Option (Nat × List Char)
  | 0, value, cs => some (value, cs)
  | n + 1, value, c :: cs => do hexNumber? n (value * 16 + (← Text.hexValue? c)) cs
  | _ + 1, _, [] => none

def char? (n : Nat) : Option Char :=
  if n < 0xD800 ∨ (0xE000 ≤ n ∧ n < 0x110000) then some (Char.ofNat n) else none

/-- The character that a letter stands for behind a backslash. -/
def shortEscape? : Char → Option Char
  | '0' => some '\x00'
  | 'a' => some '\x07'
  | 'b' => some '\x08'
  | 't' => some '\t'
  | '\t' => some '\t'
  | 'n' => some '\n'
  | 'v' => some '\x0b'
  | 'f' => some '\x0c'
  | 'r' => some '\r'
  | 'e' => some '\x1b'
  | ' ' => some ' '
  | '"' => some '"'
  | '/' => some '/'
  | '\\' => some '\\'
  | 'N' => some '\x85'
  | '_' => some '\xa0'
  | 'L' => some '\u2028'
  | 'P' => some '\u2029'
  | _ => none

/-- The character that an escape stands for, from the letter after the backslash on. -/
def escape? : List Char → Option (Char × List Char)
  | 'x' :: cs => do
    let (n, cs) ← hexNumber? 2 0 cs
    return (← char? n, cs)
  | 'u' :: cs => do
    let (n, cs) ← hexNumber? 4 0 cs
    return (← char? n, cs)
  | 'U' :: cs => do
    let (n, cs) ← hexNumber? 8 0 cs
    return (← char? n, cs)
  | c :: cs => (shortEscape? c).map (·, cs)
  | [] => none

/-- How a word in quotes ends. -/
inductive WordEnd where
  /-- Before a gap, the closing quote or the end of the text. -/
  | plain
  /-- Before a line end that a backslash hides. -/
  | hiddenBreak

/-- Reads a word in quotes, at most `room` characters of it, and gives what follows it. -/
def quotedWord? (quote : Char) : Nat → List Char → Option (List Char × WordEnd × List Char)
  | 0, cs => some ([], .plain, cs)
  | _ + 1, [] => some ([], .plain, [])
  | room + 1, c :: cs =>
    if isGap c then some ([], .plain, c :: cs)
    else if c = quote then
      if quote = '\'' ∧ cs.head? = some quote then
        (quotedWord? quote room (cs.drop 1)).map (·.map (c :: ·) id)
      else some ([], .plain, c :: cs)
    else if c = '\\' ∧ quote = '"' then
      if cs.head?.any isBreak then some ([], .hiddenBreak, cs)
      else do
        let (d, cs) ← escape? cs
        (quotedWord? quote room cs).map (·.map (d :: ·) id)
    else (quotedWord? quote room cs).map (·.map (c :: ·) id)

/-- Reads `room` words at most of a text in quotes, up to the closing quote. -/
def quotedWords? (quote : Char) : Nat → Cursor → Option (List Char × Cursor)
  | 0, _ => none
  | room + 1, c =>
    if c.isAtDocumentLimit || c.rest.isEmpty then none
    else do
      let (word, wordEnd, rest) ← quotedWord? quote (c.rest.length + 1) c.rest
      let c := c.skipTo rest
      if rest.head? = some quote then return (word, c.skip 1)
      let (gap, c) ← gap? 0 c
      let between := match wordEnd with
        | .plain => gap.text
        | .hiddenBreak => gap.breaks.drop 1
      let (text, c) ← quotedWords? quote room c
      return (word ++ between ++ text, c)

/-- Reads a text in quotes, from its opening quote on. -/
def quoted? (quote : Char) (c : Cursor) : Option (List Char × Cursor) :=
  quotedWords? quote (c.rest.length + 1) (c.skip 1)

/-! ## Blocks -/

/-- What is kept of the line ends at the end of a block. -/
inductive Chomping where
  | strip
  | clip
  | keep
deriving DecidableEq

/-- The sign of a chomping. -/
def chomping? : Char → Option Chomping
  | '+' => some .keep
  | '-' => some .strip
  | _ => none

/-- A depth of indentation between one and nine. -/
def depth? (c : Char) : Option Nat :=
  if '1' ≤ c ∧ c ≤ '9' then some (c.toNat - '0'.toNat) else none

/-- Reads what may stand behind the sign of a block, in any order: a chomping and a depth. -/
def header? (cs : List Char) : Option (Chomping × Option Nat × List Char) :=
  match cs with
  | a :: rest =>
    match chomping? a with
    | some chomping =>
      match rest with
      | b :: more =>
        if b.isDigit then (depth? b).map fun depth => (chomping, some depth, more)
        else some (chomping, none, rest)
      | [] => some (chomping, none, [])
    | none =>
      if a.isDigit then do
        let depth ← depth? a
        match rest.head?.bind chomping? with
        | some chomping => return (chomping, some depth, rest.drop 1)
        | none => return (.clip, some depth, rest)
      else some (.clip, none, cs)
  | [] => some (.clip, none, [])

/-- Empty lines that have been read: their ends, and the column of the longest of them. -/
structure EmptyLines where
  breaks : List Char
  widest : Nat
  cursor : Cursor

/-- Reads the indentation of a line, and lines before it that hold nothing else; at most `room` of
these. As long as the indentation is not known it goes as far as there are spaces, and no tab may
follow. -/
def emptyLines? (indent : Option Nat) : Nat → Nat → Cursor → Option EmptyLines
  | 0, widest, c => some ⟨[], widest, c⟩
  | room + 1, widest, c =>
    let spaces := (c.rest.takeWhile (· == ' ')).length
    let c := c.skip (indent.elim spaces fun n => min spaces (n - c.column))
    let widest := max widest c.column
    if c.rest.head? = some '\t' ∧ indent.all (c.column < ·) then none
    else
      match c.takeBreak? with
      | none => some ⟨[], widest, c⟩
      | some (b, c) =>
        (emptyLines? indent room widest c).map fun e => { e with breaks := b :: e.breaks }

/-- The text of a block, with what ends it. -/
structure Block where
  text : List Char
  /-- The end of the last line. -/
  lastBreak : List Char
  /-- The empty lines after it. -/
  trailing : List Char
  cursor : Cursor

/-- What stands between two lines of a block: the end of the first one, folded if the block is and
neither line begins with a blank, and the empty lines. -/
def between (folded startsBlank : Bool) (lastBreak trailing : List Char) : List Char :=
  if folded && lastBreak == ['\n'] && !startsBlank then
    if trailing.isEmpty then [' '] else trailing
  else lastBreak ++ trailing

/-- Reads `room` lines at most of a block that is indented by `indent` columns. -/
def blockLines? (folded : Bool) (indent : Nat) : Nat → Bool → Block → Option Block
  | 0, _, b => some b
  | room + 1, wasBlank, b =>
    if b.cursor.column ≠ indent ∨ b.cursor.rest.isEmpty then some b
    else do
      let line := b.cursor.rest.takeWhile isInLine
      let isBlank := line.head?.any isSpace
      let text := b.text ++ between folded (wasBlank || isBlank) b.lastBreak b.trailing ++ line
      let c := b.cursor.skip line.length
      let (lastBreak, c) := match c.takeBreak? with
        | some (br, c) => ([br], c)
        | none => ([], c)
      let empty ← emptyLines? (some indent) (c.rest.length + 1) 0 c
      blockLines? folded indent room isBlank ⟨text, lastBreak, empty.breaks, empty.cursor⟩

/-- Reads a block from its sign on. The collection around it is indented by `outer` columns, if
there is one. -/
def block? (folded : Bool) (outer : Option Nat) (c : Cursor) : Option (List Char × Cursor) := do
  let c := c.skip 1
  let (chomping, depth, rest) ← header? c.rest
  let c ← (c.skipTo rest).endLine?
  let known := depth.map (outer.getD 0 + ·)
  let empty ← emptyLines? known (c.rest.length + 1) 0 c
  let indent := known.getD (max empty.widest (max (outer.elim 0 (· + 1)) 1))
  let b ← blockLines? folded indent (c.rest.length + 1) false
    ⟨[], [], empty.breaks, empty.cursor⟩
  let kept := match chomping with
    | .strip => []
    | .clip => b.lastBreak
    | .keep => b.lastBreak ++ b.trailing
  return (b.text ++ kept, b.cursor)

end Relock.Yaml.Scalar
