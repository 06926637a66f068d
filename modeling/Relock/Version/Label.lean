import Relock.Text.Blank
import Relock.Text.Digit
import Relock.Version.Semver

/-!
# Version labels

The labels that people give to versions, such as `v1.2` or `v1.12.0-12-g2fd980e`.

* `number?` reads a label as a semantic version, filling in missing numbers with zero.
* `strictNumber?` admits complete versions only.
* `hasDescribeSuffix` says whether a label names a commit some steps after a tag: it ends in the
  number of steps and the abbreviated hash of the commit.
-/

namespace Relock.Label

/-- Drops one `v` at the front. -/
def dropV : List Char → List Char
  | 'v' :: cs => cs
  | cs => cs

/-- Reads a missing-component number: decimal digits after a plus sign or none, below 2^64. -/
def component? (cs : List Char) : Option UInt64 :=
  let digits := match cs with
    | '+' :: rest => rest
    | _ => cs
  if !digits.isEmpty && digits.all Char.isDigit then Semver.number? digits else none

/-- Reads one or two numbers, the missing ones being zero. -/
def short? (cs : List Char) : Option Semver :=
  match cs.splitOn '.' with
  | [major] => (component? major).map (Semver.release · 0 0)
  | [major, minor] => do return Semver.release (← component? major) (← component? minor) 0
  | _ => none

/-- Reads a label as a semantic version: blanks around it and one `v` in front are dropped, and
the second and the third number may be missing. -/
def number? (label : String) : Option Semver :=
  let cs := dropV (Text.trimEnds Text.isBlank label.toList)
  (Semver.parse? cs).or (short? cs)

/-- Reads a complete version after one `v` or none. -/
def strictNumber? (label : String) : Option Semver :=
  Semver.parse? (dropV label.toList)

/-- The hash at the end of a reversed label: 4 to 40 lowercase hexadecimal digits, `g` and `-`
before them. Gives what stands before it, reversed. -/
def dropHash? (reversed : List Char) : Option (List Char) :=
  let hash := reversed.takeWhile Text.isLowerHexDigit
  if 4 ≤ hash.length && hash.length ≤ 40 then
    match reversed.dropWhile Text.isLowerHexDigit with
    | 'g' :: '-' :: rest => some rest
    | _ => none
  else none

/-- The count of steps at the end of a reversed text: decimal digits of any script with `-`
before them. -/
def endsInCount (reversed : List Char) : Bool :=
  !(reversed.takeWhile Text.isDecimalDigit).isEmpty &&
    (reversed.dropWhile Text.isDecimalDigit).head? == some '-'

/-- Whether the label ends in `-`, a number of steps, `-g` and an abbreviated hash. -/
def hasDescribeSuffix (label : String) : Bool :=
  match dropHash? label.toList.reverse with
  | some rest => endsInCount rest
  | none => false

end Relock.Label
