/-!
# Punycode

Text of any script in the letters, digits and hyphens of ASCII: first the ASCII characters of the
text, then, by increasing code point, how far it is from each of the others to the next one. The
distances are numbers of digits of varying weight; a bias that follows the distances so far keeps
them short.
-/

namespace Relock.Punycode

def digit (n : Nat) : Char :=
  if n < 26 then Char.ofNat (0x61 + n) else Char.ofNat (0x30 + n - 26)

/-- The value of a digit of base 36. -/
def digitValue? (c : Char) : Option Nat :=
  if c.isLower then some (c.toNat - 0x61)
  else if c.isUpper then some (c.toNat - 0x41)
  else if c.isDigit then some (c.toNat - 0x30 + 26)
  else none

/-- The least value of a digit at `position`, counted in steps of 36, that is not the last one. -/
def threshold (position bias : Nat) : Nat :=
  max 1 (min 26 (position - bias))

theorem threshold_pos (position bias : Nat) : 1 ≤ threshold position bias := by
  simp only [threshold]; omega

/-- How often a distance can be divided by 35 before it is small, and what is left. -/
def shrink (distance : Nat) : Nat × Nat :=
  if 455 < distance then (shrink (distance / 35)).map (· + 1) id else (0, distance)
termination_by distance
decreasing_by exact Nat.div_lt_self (by omega) (by omega)

/-- The bias after a distance, with `count` characters known then. -/
def adapt (distance count : Nat) (isFirst : Bool) : Nat :=
  let distance := if isFirst then distance / 700 else distance / 2
  let (steps, rest) := shrink (distance + distance / count)
  36 * steps + 36 * rest / (rest + 38)

/-- The digits of a number from `position` on. -/
def digits (bias position n : Nat) : List Char :=
  let t := threshold position bias
  if n < t then [digit n]
  else digit (t + (n - t) % (36 - t)) :: digits bias (position + 36) ((n - t) / (36 - t))
termination_by n
decreasing_by
  have := threshold_pos position bias
  have := Nat.div_le_self (n - threshold position bias) (36 - threshold position bias)
  omega

/-! ## Writing -/

/-- How far a text has been written. -/
structure Writing where
  written : List Char
  /-- The distance from the last character that was written. -/
  distance : Nat
  bias : Nat
  /-- The number of characters that have been written. -/
  count : Nat

/-- Goes over a character of the text when the turn is on `point`. -/
def visit (basicCount point : Nat) (w : Writing) (c : Char) : Writing :=
  if c.toNat < point then { w with distance := w.distance + 1 }
  else if c.toNat = point then
    ⟨w.written ++ digits w.bias 36 w.distance, 0,
      adapt w.distance (w.count + 1) (w.count == basicCount), w.count + 1⟩
  else w

/-- Writes the characters of a text whose turn comes, by increasing code points from `next` on. -/
def visitAll (text : List Char) (basicCount : Nat) : List Nat → Nat → Writing → Writing
  | [], _, w => w
  | point :: points, next, w =>
    let w := { w with distance := w.distance + (point - next) * (w.count + 1) }
    let w := text.foldl (visit basicCount point) w
    visitAll text basicCount points (point + 1) { w with distance := w.distance + 1 }

def isBasic (c : Char) : Bool := c.toNat < 0x80

/-- The code points of a text beyond ASCII in increasing order, each once. -/
def points (text : List Char) : List Nat :=
  (((text.filter (!isBasic ·)).map Char.toNat).mergeSort (· ≤ ·)).eraseDups

/-- Writes a text. -/
def encode (text : List Char) : List Char :=
  let basic := text.filter isBasic
  let start := if basic.isEmpty then [] else basic ++ ['-']
  (visitAll text basic.length (points text) 0x80 ⟨start, 0, 72, basic.length⟩).written

/-! ## Reading -/

/-- Reads a number from `position` on, whose next digit has the weight `weight`, after `n`. -/
def number? (bias : Nat) : Nat → Nat → Nat → List Char → Option (Nat × List Char)
  | _, _, _, [] => none
  | position, weight, n, c :: cs => do
    let d ← digitValue? c
    let t := threshold position bias
    if d < t then return (n + d * weight, cs)
    else number? bias (position + 36) (weight * (36 - t)) (n + d * weight) cs

/-- Reads `room` numbers at most: `n` is the place of the next character among all that could follow
`point`, and `text` what has been read. -/
def insertAll? : Nat → Nat → Nat → Nat → List Char → List Char → Option (List Char)
  | _, _, _, _, text, [] => some text
  | 0, _, _, _, _, _ => none
  | room + 1, bias, point, n, text, cs => do
    let (m, cs) ← number? bias 36 1 n cs
    let count := text.length + 1
    let point := point + m / count
    if point < 0xD800 ∨ (0xE000 ≤ point ∧ point < 0x110000) then
      let place := m % count
      let text := text.take place ++ Char.ofNat point :: text.drop place
      insertAll? room (adapt (m - n) count (n == 0)) point (place + 1) text cs
    else none

/-- Reads a text. -/
def decode? (cs : List Char) : Option (List Char) :=
  let tail := (cs.reverse.takeWhile (· != '-')).reverse
  let basic := cs.take (cs.length - tail.length - 1)
  let tail := if basic.isEmpty then cs else tail
  if cs.all isBasic then insertAll? tail.length 72 0x80 0 basic tail else none

end Relock.Punycode
