import Relock.Record

/-!
# Vndr metadata

The file `vendor.conf`: a line for each dependency, with its import path, its revision and
optionally the repository to take it from, blanks between them. What follows a number sign is a
comment, and so are fields beyond the third.
-/

namespace Relock.Vndr

def path : String := "vendor.conf"

/-- What the fields of a line record; without a field, nothing. -/
def recordOfFields? : List (List Char) → Option ImportRecord
  | [] => none
  | importPath :: fields =>
    let field (i : Nat) : String := String.ofList (fields.getD i [])
    some ((ImportRecord.new (String.ofList importPath) (field 0)).withSource (field 1))

/-- What a line records. -/
def record? (line : List Char) : Option ImportRecord :=
  recordOfFields? (Text.words (line.takeWhile (· != '#')))

def records (text : String) : List ImportRecord :=
  (Text.lines text.toList).filterMap record?

end Relock.Vndr
