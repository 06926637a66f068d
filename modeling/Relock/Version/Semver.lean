import Relock.Text.Digit

/-!
# Semantic versions

`major.minor.patch`, an optional pre-release after `-` and optional build metadata after `+`.

* `Identifier` is one dot-separated piece of a pre-release or of build metadata, and
  `Prerelease` is a list of them whose numeric ones have no leading zero.
* `Semver.parse?` reads a complete version and `Semver.render` writes it.
* `Semver.compare` is the total order: numbers first, a pre-release before its release,
  identifiers piece by piece, and build metadata last.

The three numbers are 64 bits wide, so a larger one is no version.
-/

namespace Relock

/-- The characters of an identifier: letters and digits of ASCII, and the hyphen. -/
def isIdentifierChar (c : Char) : Bool :=
  c.isAlphanum || c == '-'

/-- One piece of a pre-release or of build metadata. -/
structure Identifier where
  chars : List Char
  ne_nil : chars ≠ []
  all_identifierChar : chars.all isIdentifierChar = true
deriving DecidableEq

namespace Identifier

/-- The identifier written by `cs`, if it is one. -/
def ofChars? (cs : List Char) : Option Identifier :=
  if h : cs ≠ [] ∧ cs.all isIdentifierChar = true then some ⟨cs, h.1, h.2⟩ else none

def isNumeric (i : Identifier) : Bool :=
  i.chars.all Char.isDigit

/-- A number with more digits than it needs. -/
def hasLeadingZero (i : Identifier) : Bool :=
  i.isNumeric && i.chars.head? == some '0' && 1 < i.chars.length

/-- Numbers come before words. Two numbers compare by length and then digit by digit, which is
their order as numbers when they have no leading zero; two words compare character by
character. -/
def comparePrecedence (a b : Identifier) : Ordering :=
  match a.isNumeric, b.isNumeric with
  | true, false => .lt
  | false, true => .gt
  | false, false => compare a.chars b.chars
  | true, true => (compare a.chars.length b.chars.length).then (compare a.chars b.chars)

/-- The digits that count in a number. -/
def significant (i : Identifier) : List Char :=
  i.chars.dropWhile (· == '0')

/-- Numbers come before words. Two numbers compare by value, and of equal values the shorter
spelling comes first. -/
def compareBuild (a b : Identifier) : Ordering :=
  match a.isNumeric, b.isNumeric with
  | true, false => .lt
  | false, true => .gt
  | false, false => compare a.chars b.chars
  | true, true =>
    (compare a.significant.length b.significant.length).then <|
      (compare a.significant b.significant).then (compare a.chars.length b.chars.length)

def joinDots (ids : List Identifier) : List Char :=
  ['.'].intercalate (ids.map (·.chars))

/-- Reads identifiers separated by dots from the whole of `cs`. -/
def splitDots? (cs : List Char) : Option (List Identifier) :=
  (cs.splitOn '.').mapM ofChars?

end Identifier

/-- The identifiers after the hyphen; none for a release. -/
structure Prerelease where
  ids : List Identifier
  canonical : ids.all (! ·.hasLeadingZero) = true
deriving DecidableEq

namespace Prerelease

def none : Prerelease := ⟨[], rfl⟩

/-- Reads a pre-release: identifiers, no number among them with a leading zero. -/
def parse? (cs : List Char) : Option Prerelease := do
  let ids ← Identifier.splitDots? cs
  if h : ids.all (! ·.hasLeadingZero) = true then some ⟨ids, h⟩ else Option.none

def chars (p : Prerelease) : List Char :=
  Identifier.joinDots p.ids

def isNone (p : Prerelease) : Bool :=
  p.ids.isEmpty

/-- A release comes after all its pre-releases; else the first differing identifier decides, and
a list that ends first comes first. -/
def compare (a b : Prerelease) : Ordering :=
  match a.ids, b.ids with
  | [], [] => .eq
  | [], _ => .gt
  | _, [] => .lt
  | xs, ys => List.compareLex Identifier.comparePrecedence xs ys

end Prerelease

/-- A semantic version. -/
structure Semver where
  major : UInt64
  minor : UInt64
  patch : UInt64
  pre : Prerelease
  build : List Identifier
deriving DecidableEq

namespace Semver

/-- A release without build metadata. -/
def release (major minor patch : UInt64) : Semver :=
  ⟨major, minor, patch, .none, []⟩

/-- The number written by decimal digits, if it is below 2^64. -/
def number? (digits : List Char) : Option UInt64 :=
  let n := Nat.ofDigitChars 10 digits 0
  if n < UInt64.size then some (UInt64.ofNat n) else none

/-- Reads a number without leading zeros from the front of `cs` and gives the rest. -/
def takeNumber? (cs : List Char) : Option (UInt64 × List Char) :=
  match cs.takeWhile Char.isDigit with
  | [] => none
  | '0' :: _ :: _ => none
  | digits => (number? digits).map (·, cs.dropWhile Char.isDigit)

/-- Reads the pre-release and the build metadata that follow the three numbers. -/
def parseSuffix? (cs : List Char) : Option (Prerelease × List Identifier) :=
  let text := cs.takeWhile (· != '+')
  let pre? := match text with
    | [] => some Prerelease.none
    | '-' :: rest => Prerelease.parse? rest
    | _ => none
  let build? := match cs.dropWhile (· != '+') with
    | [] => some []
    | _ :: rest => Identifier.splitDots? rest
  pre?.bind fun pre => build?.map (pre, ·)

/-- Reads a complete version. -/
def parse? (cs : List Char) : Option Semver :=
  match takeNumber? cs with
  | some (major, '.' :: cs) =>
    match takeNumber? cs with
    | some (minor, '.' :: cs) =>
      match takeNumber? cs with
      | some (patch, cs) =>
        (parseSuffix? cs).map fun (pre, build) => ⟨major, minor, patch, pre, build⟩
      | none => none
    | _ => none
  | _ => none

def digits (n : UInt64) : List Char :=
  Nat.toDigits 10 n.toNat

def chars (v : Semver) : List Char :=
  digits v.major ++ '.' :: digits v.minor ++ '.' :: digits v.patch ++
    (if v.pre.isNone then [] else '-' :: v.pre.chars) ++
    (if v.build.isEmpty then [] else '+' :: Identifier.joinDots v.build)

def render (v : Semver) : String :=
  String.ofList v.chars

/-- The total order of versions: the three numbers, the pre-release, and then the build metadata,
where having none comes first. -/
def compare (a b : Semver) : Ordering :=
  (Ord.compare a.major b.major).then <|
    (Ord.compare a.minor b.minor).then <|
      (Ord.compare a.patch b.patch).then <|
        (a.pre.compare b.pre).then (List.compareLex Identifier.compareBuild a.build b.build)

end Semver

end Relock
