import Relock.Json.Value
import Relock.Text.Digit

/-!
# JSON tokens

The words that a JSON text consists of. `Token.scan?` cuts a text into them and drops the blanks
between them; it fails on whatever begins no token.
-/

namespace Relock.Json

/-- A word of a JSON text. -/
inductive Token where
  | openArray
  | closeArray
  | openObject
  | closeObject
  | comma
  | colon
  /-- A quoted text. -/
  | quoted (text : Quoted)
  /-- A number, `true`, `false` or `null`. -/
  | plain (value : Json)

namespace Token

def isSpace (c : Char) : Bool :=
  c == ' ' || c == '\n' || c == '\t' || c == '\r'

/-- The code unit written by four digits of base sixteen at the front of `cs`. -/
def codeUnit? : List Char → Option (Nat × List Char)
  | a :: b :: c :: d :: cs => do
    let a ← Text.hexValue? a
    let b ← Text.hexValue? b
    let c ← Text.hexValue? c
    let d ← Text.hexValue? d
    return (((a * 16 + b) * 16 + c) * 16 + d, cs)
  | _ => none

/-- The character after a backslash, for the escapes of a single letter. -/
def shortEscape? : Char → Option Char
  | '"' => some '"'
  | '\\' => some '\\'
  | '/' => some '/'
  | 'b' => some '\x08'
  | 'f' => some '\x0c'
  | 'n' => some '\n'
  | 'r' => some '\r'
  | 't' => some '\t'
  | _ => none

/-- A piece of a quoted text: a character, or a UTF-16 code unit written as an escape. -/
inductive Piece where
  | char (c : Char)
  | unit (n : Nat)

/-- Reads the pieces up to the closing quote, and gives the text after it. -/
def pieces? : List Char → Option (List Piece × List Char)
  | [] => none
  | '"' :: cs => some ([], cs)
  | '\\' :: 'u' :: a :: b :: c :: d :: cs => do
    let (n, _) ← codeUnit? [a, b, c, d]
    let (pieces, rest) ← pieces? cs
    return (.unit n :: pieces, rest)
  | '\\' :: c :: cs => do
    let c ← shortEscape? c
    let (pieces, rest) ← pieces? cs
    return (.char c :: pieces, rest)
  | c :: cs =>
    if c.toNat < 0x20 then none
    else do
      let (pieces, rest) ← pieces? cs
      return (.char c :: pieces, rest)

/-- What follows a quoted text is shorter than the quoted text with it. -/
theorem length_of_pieces? {cs rest : List Char} {pieces : List Piece}
    (h : pieces? cs = some (pieces, rest)) : rest.length < cs.length := by
  -- each piece takes a character at least, and the rest is shorter still by induction
  fun_induction pieces? cs generalizing pieces with
  | case1 => simp at h
  | case2 cs => simp_all
  | case3 a b c d cs ih =>
    simp only [bind, Option.bind_eq_some_iff, pure] at h
    obtain ⟨_, -, ⟨tail, rest'⟩, hrec, h⟩ := h
    simp only [Option.some.injEq, Prod.mk.injEq] at h
    obtain ⟨-, rfl⟩ := h
    have := ih hrec
    simp only [List.length_cons]
    omega
  | case4 c cs _ ih =>
    simp only [bind, Option.bind_eq_some_iff, pure] at h
    obtain ⟨_, -, ⟨tail, rest'⟩, hrec, h⟩ := h
    simp only [Option.some.injEq, Prod.mk.injEq] at h
    obtain ⟨-, rfl⟩ := h
    have := ih hrec
    simp only [List.length_cons]
    omega
  | case5 => simp at h
  | case6 c cs _ _ _ _ ih =>
    simp only [bind, Option.bind_eq_some_iff, pure] at h
    obtain ⟨⟨tail, rest'⟩, hrec, h⟩ := h
    simp only [Option.some.injEq, Prod.mk.injEq] at h
    obtain ⟨-, rfl⟩ := h
    have := ih hrec
    simp only [List.length_cons]
    omega

/-- The characters of a list of pieces; none if a surrogate stands without its partner. -/
def characters? : List Piece → Option (List Char)
  | [] => some []
  | .char c :: pieces => (characters? pieces).map (c :: ·)
  | .unit high :: .unit low :: pieces =>
    if 0xD800 ≤ high ∧ high < 0xDC00 then
      if 0xDC00 ≤ low ∧ low < 0xE000 then
        let n := (high - 0xD800) * 0x400 + (low - 0xDC00) + 0x10000
        (characters? pieces).map (Char.ofNat n :: ·)
      else none
    else if 0xDC00 ≤ high ∧ high < 0xE000 then none
    else (characters? (.unit low :: pieces)).map (Char.ofNat high :: ·)
  | .unit n :: pieces =>
    if 0xD800 ≤ n ∧ n < 0xE000 then none else (characters? pieces).map (Char.ofNat n :: ·)

def quotedText (pieces : List Piece) : Quoted :=
  (characters? pieces).map String.ofList

def isNumberChar (c : Char) : Bool :=
  c.isDigit || c == '-' || c == '+' || c == '.' || c == 'e' || c == 'E'

/-- Drops the digits at the front, of which there must be one. -/
def dropDigits? (cs : List Char) : Option (List Char) :=
  if cs.head?.any Char.isDigit then some (cs.dropWhile Char.isDigit) else none

/-- Drops a sign at the front, if there is one. -/
def dropSign : List Char → List Char
  | '-' :: cs => cs
  | '+' :: cs => cs
  | cs => cs

/-- Drops an integer without leading zeros at the front. -/
def dropInteger? : List Char → Option (List Char)
  | '0' :: cs => some cs
  | cs => dropDigits? cs

/-- Drops a fraction at the front, if there is one. -/
def dropFraction? : List Char → Option (List Char)
  | '.' :: cs => dropDigits? cs
  | cs => some cs

/-- Drops an exponent at the front, if there is one. -/
def dropExponent? : List Char → Option (List Char)
  | 'e' :: cs => dropDigits? (dropSign cs)
  | 'E' :: cs => dropDigits? (dropSign cs)
  | cs => some cs

/-- Whether a text is a number. -/
def isNumber (cs : List Char) : Bool :=
  let unsigned := match cs with
    | '-' :: rest => rest
    | _ => cs
  ((dropInteger? unsigned).bind fun cs => (dropFraction? cs).bind dropExponent?) == some []

/-- The value of a word of letters. -/
def word? (letters : List Char) : Option Json :=
  if letters = ['t', 'r', 'u', 'e'] then some (.bool true)
  else if letters = ['f', 'a', 'l', 's', 'e'] then some (.bool false)
  else if letters = ['n', 'u', 'l', 'l'] then some .null
  else none

/-- The tokens that are a single character. -/
def punctuation? : Char → Option Token
  | '[' => some openArray
  | ']' => some closeArray
  | '{' => some openObject
  | '}' => some closeObject
  | ',' => some comma
  | ':' => some colon
  | _ => none

/-- Cuts a text into its tokens. -/
def scan? (cs : List Char) : Option (List Token) :=
  match cs with
  | [] => some []
  | c :: rest =>
    if isSpace c then scan? rest
    else if c = '"' then
      match h : pieces? rest with
      | some (pieces, after) =>
        have := length_of_pieces? h
        (scan? after).map (quoted (quotedText pieces) :: ·)
      | none => none
    else if isNumberChar c && !c.isAlpha then
      have := (List.dropWhile_suffix isNumberChar (l := rest)).length_le
      let number := c :: rest.takeWhile isNumberChar
      if isNumber number then
        (scan? (rest.dropWhile isNumberChar)).map (plain (.number number) :: ·)
      else none
    else if c.isAlpha then
      have := (List.dropWhile_suffix Char.isAlpha (l := rest)).length_le
      match word? (c :: rest.takeWhile Char.isAlpha) with
      | some value => (scan? (rest.dropWhile Char.isAlpha)).map (plain value :: ·)
      | none => none
    else
      match punctuation? c with
      | some token => (scan? rest).map (token :: ·)
      | none => none
termination_by cs.length
decreasing_by all_goals simp_all <;> omega

end Token

end Relock.Json
