import Relock.Text.Digit

/-!
# Numbers and dates in TOML

`read?` reads a number or a date from the front of a text, as the longest of these: a date, with or
without a time and an offset; a time; a decimal number with a fraction or an exponent; infinity or
not-a-number; an integer. Only their texts are kept, but dates must exist, integers must have 64
bits and decimal numbers may not be too large for a double.
-/

namespace Relock.Toml.Number

/-- What stands before the rest of a text. -/
def before (cs rest : List Char) : List Char :=
  cs.take (cs.length - rest.length)

/-- The number that exactly `n` digits at the front make, after `value`. -/
def digits? : Nat → Nat → List Char → Option (Nat × List Char)
  | 0, value, cs => some (value, cs)
  | n + 1, value, c :: cs =>
    if c.isDigit then digits? n (value * 10 + (c.toNat - 0x30)) cs else none
  | _ + 1, _, [] => none

/-- A number of `n` digits between two bounds. -/
def digitsIn? (n low high : Nat) (cs : List Char) : Option (Nat × List Char) :=
  (digits? n 0 cs).bind fun (value, cs) =>
    if low ≤ value ∧ value ≤ high then some (value, cs) else none

/-- Drops a character at the front. -/
def dropChar? (p : Char → Bool) : List Char → Option (List Char)
  | c :: cs => if p c then some cs else none
  | [] => none

/-- The number of days of a month. -/
def daysIn (year month : Nat) : Nat :=
  if month = 2 then
    if year % 4 = 0 ∧ (year % 100 ≠ 0 ∨ year % 400 = 0) then 29 else 28
  else if month = 4 ∨ month = 6 ∨ month = 9 ∨ month = 11 then 30
  else 31

/-- Drops a day at the front. -/
def dropDay? (cs : List Char) : Option (List Char) := do
  let (year, cs) ← digits? 4 0 cs
  let cs ← dropChar? (· == '-') cs
  let (month, cs) ← digitsIn? 2 1 12 cs
  let cs ← dropChar? (· == '-') cs
  let (_, cs) ← digitsIn? 2 1 (daysIn year month) cs
  return cs

/-- Drops the fraction of a second, if there is one. -/
def dropSecondFraction? : List Char → Option (List Char)
  | '.' :: cs => if cs.head?.any Char.isDigit then some (cs.dropWhile Char.isDigit) else none
  | cs => some cs

/-- Drops a time of the day at the front. -/
def dropTime? (cs : List Char) : Option (List Char) := do
  let (_, cs) ← digitsIn? 2 0 23 cs
  let cs ← dropChar? (· == ':') cs
  let (_, cs) ← digitsIn? 2 0 59 cs
  let cs ← dropChar? (· == ':') cs
  let (_, cs) ← digitsIn? 2 0 60 cs
  return (dropSecondFraction? cs).getD cs

/-- Drops an offset from universal time, if there is one. -/
def dropOffset? : List Char → Option (List Char)
  | [] => some []
  | c :: cs =>
    if c == 'Z' || c == 'z' then some cs
    else if c == '+' || c == '-' then do
      let (_, cs) ← digitsIn? 2 0 23 cs
      let cs ← dropChar? (· == ':') cs
      let (_, cs) ← digitsIn? 2 0 59 cs
      return cs
    else some (c :: cs)

/-- Drops a date or a time at the front. A day may be followed by a time, and that by an
offset. -/
def dropDate? (cs : List Char) : Option (List Char) :=
  match dropDay? cs with
  | none => dropTime? cs
  | some rest =>
    match (dropChar? (fun c => c == 'T' || c == 't' || c == ' ') rest).bind dropTime? with
    | some rest => dropOffset? rest
    | none => some rest

/-- Drops the digits that follow a first digit: single underscores may stand between digits. -/
def dropMoreDigits? (isDigit : Char → Bool) : List Char → Option (List Char)
  | '_' :: c :: cs => if isDigit c then dropMoreDigits? isDigit cs else none
  | '_' :: [] => none
  | c :: cs => if isDigit c then dropMoreDigits? isDigit cs else some (c :: cs)
  | [] => some []

/-- Drops digits at the front. -/
def dropDigits? (isDigit : Char → Bool) : List Char → Option (List Char)
  | c :: cs => if isDigit c then dropMoreDigits? isDigit cs else none
  | [] => none

/-- Drops a sign at the front, if there is one. -/
def dropSign : List Char → List Char
  | '+' :: cs => cs
  | '-' :: cs => cs
  | cs => cs

/-- Drops a decimal integer at the front; a zero stands alone. -/
def dropDecimal? (cs : List Char) : Option (List Char) :=
  match dropSign cs with
  | '0' :: cs => some cs
  | cs => dropDigits? Char.isDigit cs

/-- Drops the fraction and the exponent of a decimal number, of which there must be one. -/
def dropFraction? (cs : List Char) : Option (List Char) :=
  let exponent? : List Char → Option (List Char)
    | 'e' :: cs => dropDigits? Char.isDigit (dropSign cs)
    | 'E' :: cs => dropDigits? Char.isDigit (dropSign cs)
    | _ => none
  match cs with
  | '.' :: cs =>
    match dropDigits? Char.isDigit cs with
    | some ('e' :: cs) => exponent? ('e' :: cs)
    | some ('E' :: cs) => exponent? ('E' :: cs)
    | rest => rest
  | cs => exponent? cs

/-- The value of a list of digits; other characters do not count. -/
def digitsValue (cs : List Char) : Nat :=
  Nat.ofDigitChars 10 (cs.filter Char.isDigit) 0

/-- The numerator and the denominator of ten to the power of `up - down`. -/
def powerOfTen (up down : Nat) : Nat × Nat :=
  (Nat.pow 10 (up - down), Nat.pow 10 (down - up))

/-- The most digits that the exponent of a decimal number needs to be taken at its value. -/
def exponentDigits : Nat := 6

/-- Whether a decimal number is too large for a double: half a unit beyond the largest double or
more. -/
def isTooLarge (text : List Char) : Bool :=
  let mantissa := text.takeWhile fun c => c != 'e' && c != 'E'
  let exponent := (text.dropWhile fun c => c != 'e' && c != 'E').drop 1
  let whole := (mantissa.takeWhile (· != '.')).filter Char.isDigit
  let fraction := (mantissa.dropWhile (· != '.')).filter Char.isDigit
  let value := digitsValue (whole ++ fraction)
  let size := digitsValue exponent
  if value = 0 then false
  else if exponentDigits < (Nat.toDigits 10 size).length then exponent.head? != some '-'
  else
    let (up, down) := if exponent.head? = some '-' then (0, size) else (size, 0)
    let (numerator, denominator) := powerOfTen up (down + fraction.length)
    (Nat.pow 2 1024 - Nat.pow 2 970) * denominator ≤ value * numerator

/-- Reads infinity or not-a-number. -/
def dropSpecial? (cs : List Char) : Option (List Char) :=
  match dropSign cs with
  | 'i' :: 'n' :: 'f' :: cs => some cs
  | 'n' :: 'a' :: 'n' :: cs => some cs
  | _ => none

/-- Whether the digits of a base make a signed integer of 64 bits. -/
def fits (base : Nat) (digits : List Char) (negative : Bool) : Bool :=
  let value := (digits.filterMap Text.hexValue?).foldl (fun n d => n * base + d) 0
  if negative then value ≤ Nat.pow 2 63 else value < Nat.pow 2 63

/-- Drops an integer at the front. -/
def dropInteger? (cs : List Char) : Option (List Char) :=
  let based (base : Nat) (isDigit : Char → Bool) (digits : List Char) :=
    (dropDigits? isDigit digits).bind fun rest =>
      if fits base (before digits rest) false then some rest else none
  match cs with
  | '0' :: 'x' :: digits => based 16 Text.isHexDigit digits
  | '0' :: 'o' :: digits => based 8 (fun c => '0' ≤ c && c ≤ '7') digits
  | '0' :: 'b' :: digits => based 2 (fun c => c == '0' || c == '1') digits
  | cs =>
    (dropDecimal? cs).bind fun rest =>
      if fits 10 (before cs rest) (cs.head? == some '-') then some rest else none

/-- Drops a decimal number with a fraction or an exponent at the front. -/
def dropFloat? (cs : List Char) : Option (List Char) :=
  (dropDecimal? cs).bind fun rest => dropFraction? rest

/-- Reads a number or a date from the front of `cs`: its text, whether it is a date, and the
rest. -/
def read? (cs : List Char) : Option (List Char × Bool × List Char) :=
  match dropDate? cs with
  | some rest => some (before cs rest, true, rest)
  | none =>
    match dropFloat? cs with
    | some rest =>
      let text := before cs rest
      if isTooLarge text && cs.head? != some '-' then none else some (text, false, rest)
    | none =>
      ((dropSpecial? cs).or (dropInteger? cs)).map fun rest => (before cs rest, false, rest)

end Relock.Toml.Number
