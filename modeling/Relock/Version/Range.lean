import Relock.Version.Semver

/-!
# Version ranges

A range is a list of comparators that a version must all meet; the empty list is `*`, any version.

* `Partial` is a version of which the last numbers may be missing, and `Comparator` bounds
  versions by one, or names a family of versions with wildcards.
* `Range.parse?` reads a range, with at most `Range.maxComparators` comparators, and
  `Range.render` writes it.
* `Range.caret` is the range of the versions compatible with one version.

A comparator without an operator is a caret comparator, unless it ends in a wildcard. Wildcards
after an operator are dropped, and so is build metadata. Spaces, and no other blanks, may stand
before and after a comparator and after its operator.
-/

namespace Relock

/-- How a comparator relates a version to its bound. -/
inductive Operator where
  | exact
  | greater
  | greaterEq
  | less
  | lessEq
  | tilde
  | caret
deriving DecidableEq

namespace Operator

/-- The sign of an operator. -/
def sign : Operator → List Char
  | exact => ['=']
  | greater => ['>']
  | greaterEq => ['>', '=']
  | less => ['<']
  | lessEq => ['<', '=']
  | tilde => ['~']
  | caret => ['^']

/-- Reads an operator from the front of `cs` and gives the rest. -/
def take? : List Char → Option (Operator × List Char)
  | '=' :: cs => some (exact, cs)
  | '>' :: '=' :: cs => some (greaterEq, cs)
  | '>' :: cs => some (greater, cs)
  | '<' :: '=' :: cs => some (lessEq, cs)
  | '<' :: cs => some (less, cs)
  | '~' :: cs => some (tilde, cs)
  | '^' :: cs => some (caret, cs)
  | _ => none

end Operator

/-- A version of which the last numbers may be missing. -/
inductive Partial where
  | major (major : UInt64)
  | minor (major minor : UInt64)
  | full (major minor patch : UInt64) (pre : Prerelease)
deriving DecidableEq

/-- One condition on a version. -/
inductive Comparator where
  /-- A bound. -/
  | bound (op : Operator) (version : Partial)
  /-- Any version with this major number. -/
  | anyMinor (major : UInt64)
  /-- Any version with these two numbers. -/
  | anyPatch (major minor : UInt64)
deriving DecidableEq

namespace Partial

def chars : Partial → List Char
  | major a => Semver.digits a
  | minor a b => Semver.digits a ++ '.' :: Semver.digits b
  | full a b c pre => Semver.digits a ++ '.' :: Semver.digits b ++ '.' :: Semver.digits c ++
      (if pre.isNone then [] else '-' :: pre.chars)

end Partial

namespace Comparator

def chars : Comparator → List Char
  | bound op version => op.sign ++ version.chars
  | anyMinor a => Semver.digits a ++ ['.', '*']
  | anyPatch a b => Semver.digits a ++ '.' :: Semver.digits b ++ ['.', '*']

/-- The text after a wildcard at the front of `cs`, if there is one. -/
def takeWildcard? : List Char → Option (List Char)
  | '*' :: cs => some cs
  | 'x' :: cs => some cs
  | 'X' :: cs => some cs
  | _ => none

def skipSpaces (cs : List Char) : List Char :=
  cs.dropWhile (· == ' ')

/-- The characters that may stand in a pre-release or in build metadata. -/
def isSuffixChar (c : Char) : Bool :=
  isIdentifierChar c || c == '.'

/-- Reads build metadata from the front of `cs` and gives what follows it. -/
def skipBuild? : List Char → Option (List Char)
  | '+' :: cs =>
    (Identifier.splitDots? (cs.takeWhile isSuffixChar)).map fun _ => cs.dropWhile isSuffixChar
  | cs => some cs

/-- Reads the pre-release that may follow the third number, and gives what follows it. -/
def takePrerelease? : List Char → Option (Prerelease × List Char)
  | '-' :: cs =>
    (Prerelease.parse? (cs.takeWhile isSuffixChar)).map (·, cs.dropWhile isSuffixChar)
  | cs => some (.none, cs)

/-- A comparator whose operator, if written, is `op?`, and whose text ends in wildcards after the
numbers of `version`. -/
def ofWildcard (op? : Option Operator) : Partial → Comparator
  | version@(.major a) => op?.elim (anyMinor a) (bound · version)
  | version@(.minor a b) => op?.elim (anyPatch a b) (bound · version)
  | version => bound (op?.getD .caret) version

/-- Reads the third number, or a wildcard for it, and what may follow. -/
def takePatch? (op? : Option Operator) (major minor : UInt64) (cs : List Char) :
    Option (Comparator × List Char) :=
  match takeWildcard? cs with
  | some cs => some (ofWildcard op? (.minor major minor), cs)
  | none => do
    let (patch, cs) ← Semver.takeNumber? cs
    let (pre, cs) ← takePrerelease? cs
    let cs ← skipBuild? cs
    return (bound (op?.getD .caret) (.full major minor patch pre), cs)

/-- After a wildcard for the second number the third may only be a wildcard too. -/
def skipSecondWildcard? : List Char → Option (List Char)
  | '.' :: cs => takeWildcard? cs
  | cs => some cs

/-- Reads the second number, or a wildcard for it, and what may follow. -/
def takeMinor? (op? : Option Operator) (major : UInt64) (cs : List Char) :
    Option (Comparator × List Char) :=
  match takeWildcard? cs with
  | some cs => (skipSecondWildcard? cs).map (ofWildcard op? (.major major), ·)
  | none => do
    let (minor, cs) ← Semver.takeNumber? cs
    match cs with
    | '.' :: cs => takePatch? op? major minor cs
    | cs => some (bound (op?.getD .caret) (.minor major minor), cs)

/-- Reads a comparator from the front of `cs`, with the spaces after it, and gives the rest. -/
def take? (cs : List Char) : Option (Comparator × List Char) := do
  let (op?, cs) := match Operator.take? cs with
    | some (op, cs) => (some op, cs)
    | none => (none, cs)
  let (major, cs) ← Semver.takeNumber? (skipSpaces cs)
  let (comparator, cs) ← match cs with
    | '.' :: cs => takeMinor? op? major cs
    | cs => some (bound (op?.getD .caret) (.major major), cs)
  return (comparator, skipSpaces cs)

end Comparator

/-- The most comparators that a range may have. -/
def Range.maxComparators : Nat := 32

/-- Conditions that a version must all meet. -/
structure Range where
  comparators : List Comparator
  length_le : comparators.length ≤ Range.maxComparators
deriving DecidableEq

namespace Range

def any : Range := ⟨[], by decide⟩

/-- The range of the versions compatible with `v`, its pre-release kept. -/
def caret (v : Semver) : Range :=
  ⟨[.bound .caret (.full v.major v.minor v.patch v.pre)], (by decide : 1 ≤ maxComparators)⟩

/-- Reads at most `room` comparators, separated by commas, from the whole of `cs`. -/
def parseList? : Nat → List Char → Option (List Comparator)
  | 0, _ => none
  | room + 1, cs => do
    let (comparator, cs) ← Comparator.take? cs
    match cs with
    | [] => return [comparator]
    | ',' :: cs => return comparator :: (← parseList? room (Comparator.skipSpaces cs))
    | _ => none

/-- No more comparators are read than there is room for. -/
theorem length_le_of_parseList? {room : Nat} {cs : List Char} {comparators : List Comparator}
    (h : parseList? room cs = some comparators) : comparators.length ≤ room := by
  induction room generalizing cs comparators with
  | zero => simp [parseList?] at h
  | succ room ih =>
    simp only [parseList?, bind, Option.bind_eq_some_iff] at h
    obtain ⟨⟨comparator, rest⟩, -, h⟩ := h
    split at h
    · obtain rfl := Option.some.inj h
      simp
    · simp only [Option.bind_eq_some_iff] at h
      obtain ⟨tail, htail, h⟩ := h
      obtain rfl := Option.some.inj h
      simpa using ih htail
    · simp at h

/-- Reads a range: a wildcard alone, or comparators separated by commas. -/
def parse? (cs : List Char) : Option Range :=
  let cs := Comparator.skipSpaces cs
  match Comparator.takeWildcard? cs with
  | some rest => if (Comparator.skipSpaces rest).isEmpty then some any else none
  | none =>
    match h : parseList? maxComparators cs with
    | some comparators => some ⟨comparators, length_le_of_parseList? h⟩
    | none => none

def chars (r : Range) : List Char :=
  if r.comparators.isEmpty then ['*'] else [',', ' '].intercalate (r.comparators.map (·.chars))

def render (r : Range) : String :=
  String.ofList r.chars

end Range

end Relock
