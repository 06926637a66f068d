import Relock.Text.Digit

/-!
# Network addresses

Hosts that are numbers. An address of 32 bits is read from one to four numbers of base ten, eight or
sixteen, of which the last fills what the others leave; it is written as four numbers of base ten.
An address of 128 bits is eight numbers of base sixteen, of which a run of zeros may be left out.
-/

namespace Relock.Address

/-! ## 32 bits -/

/-- The number that digits of a base are. -/
def digits? (base : Nat) (isDigit : Char → Bool) (cs : List Char) : Option Nat :=
  if cs.all isDigit then
    some (cs.foldl (fun n c => n * base + (Text.hexValue? c).getD 0) 0)
  else none

/-- Reads a number of base sixteen after `0x`, of base eight after `0`, and else of base ten. -/
def number? (cs : List Char) : Option Nat :=
  match cs with
  | [] => none
  | '0' :: 'x' :: cs => digits? 16 Text.isHexDigit cs
  | '0' :: 'X' :: cs => digits? 16 Text.isHexDigit cs
  | '0' :: c :: cs => digits? 8 (fun d => '0' ≤ d && d ≤ '7') (c :: cs)
  | cs => digits? 10 Char.isDigit cs

/-- The parts of a host between its dots, without an empty one at the end. -/
def dotParts (host : List Char) : List (List Char) :=
  let parts := host.splitOn '.'
  if parts.getLast? = some [] ∧ 1 < parts.length then parts.dropLast else parts

/-- Whether a host can only be an address of 32 bits: its last part is a number. -/
def endsInNumber (host : List Char) : Bool :=
  match (dotParts host).getLast? with
  | some last => (!last.isEmpty && last.all Char.isDigit) || (number? last).isSome
  | none => false

/-- The address of some numbers: each but the last is a byte, and the last fills the rest. -/
def ofNumbers? : Nat → List Nat → Option Nat
  | _, [] => none
  | free, [last] => if last < Nat.pow 256 free then some last else none
  | free, n :: ns => do
    if 256 ≤ n ∨ free ≤ 1 then none
    else return n * Nat.pow 256 (free - 1) + (← ofNumbers? (free - 1) ns)

def parse32? (host : List Char) : Option Nat := do
  ofNumbers? 4 (← (dotParts host).mapM number?)

/-- Writes an address of 32 bits. -/
def render32 (address : Nat) : List Char :=
  let byte (i : Nat) : List Char := Nat.toDigits 10 (address / Nat.pow 256 i % 256)
  byte 3 ++ '.' :: byte 2 ++ '.' :: byte 1 ++ '.' :: byte 0

/-! ## 128 bits -/

/-- The number that one to four digits of base sixteen are. -/
def piece? (cs : List Char) : Option Nat :=
  if cs.isEmpty ∨ 4 < cs.length then none else digits? 16 Text.isHexDigit cs

/-- A byte in base ten without a zero in front. -/
def strictByte? (cs : List Char) : Option Nat := do
  let n ← digits? 10 Char.isDigit cs
  if cs.isEmpty ∨ 255 < n ∨ (cs.head? = some '0' ∧ cs.length ≠ 1) then none else return n

/-- Two pieces written as an address of 32 bits. -/
def dottedPieces? (cs : List Char) : Option (List Nat) := do
  match ← (cs.splitOn '.').mapM strictByte? with
  | [a, b, c, d] => return [a * 256 + b, c * 256 + d]
  | _ => none

/-- The pieces of some texts; the last one may be dotted if `mayBeDotted`. -/
def pieces? (mayBeDotted : Bool) : List (List Char) → Option (List Nat)
  | [] => some []
  | [last] =>
    if mayBeDotted && last.contains '.' then dottedPieces? last else (piece? last).map ([·])
  | part :: parts => do return (← piece? part) :: (← pieces? mayBeDotted parts)

/-- The pieces of a text between its colons; none if it is empty. -/
def piecesOf? (mayBeDotted : Bool) (cs : List Char) : Option (List Nat) :=
  if cs.isEmpty then some [] else pieces? mayBeDotted (cs.splitOn ':')

/-- The parts of a text before and after its first two colons in a row. -/
def splitGap? : List Char → Option (List Char × List Char)
  | ':' :: ':' :: cs => some ([], cs)
  | c :: cs => (splitGap? cs).map (·.map (c :: ·) id)
  | [] => none

/-- Reads an address of 128 bits as its eight pieces. -/
def parse128? (cs : List Char) : Option (List Nat) := do
  match splitGap? cs with
  | none =>
    let pieces ← piecesOf? true cs
    if pieces.length = 8 then return pieces else none
  | some (front, back) =>
    let front ← piecesOf? false front
    let back ← piecesOf? true back
    let missing := 8 - (front.length + back.length)
    if missing = 0 then none else return front ++ List.replicate missing 0 ++ back

/-- The length of the run of zeros at the front. -/
def zeros (pieces : List Nat) : Nat := (pieces.takeWhile (· == 0)).length

/-- The place and the length of the first longest run of zeros, the first piece being at `place`. -/
def longestRun (place : Nat) : List Nat → Nat × Nat
  | [] => (0, 0)
  | piece :: pieces =>
    let rest := longestRun (place + 1) pieces
    let here := zeros (piece :: pieces)
    if rest.2 ≤ here ∧ here ≠ 0 then (place, here) else rest

def colons (pieces : List Nat) : List Char :=
  [':'].intercalate (pieces.map (Nat.toDigits 16))

/-- Writes an address of 128 bits: the first longest run of two or more zeros is left out. -/
def render128 (pieces : List Nat) : List Char :=
  let (place, length) := longestRun 0 pieces
  if length < 2 then colons pieces
  else colons (pieces.take place) ++ [':', ':'] ++ colons (pieces.drop (place + length))

end Relock.Address
