import Relock.Text.Digit

/-!
# Percent encoding

Characters that an address cannot hold as they are stand in it as the bytes they have in UTF-8, each
written as a percent sign and two digits. Which characters these are depends on the part of the
address; control characters and those beyond ASCII are always among them.
-/

namespace Relock.Percent

def hexDigit (n : Nat) : Char :=
  (Nat.digitChar (n % 16)).toUpper

def byte (b : UInt8) : List Char :=
  ['%', hexDigit (b.toNat / 16), hexDigit b.toNat]

/-- Control characters, and those beyond ASCII. -/
def isUnprintable (c : Char) : Bool :=
  c.toNat < 0x20 || 0x7F ≤ c.toNat

/-- Writes the characters of a text that are unprintable or satisfy `p` as their bytes. -/
def encode (p : Char → Bool) (cs : List Char) : List Char :=
  cs.flatMap fun c => if isUnprintable c || p c then (String.utf8EncodeChar c).flatMap byte else [c]

/-- What a fragment cannot hold. -/
def inFragment (c : Char) : Bool := " \"<>`".toList.contains c

def inQuery (c : Char) : Bool := " \"#<>".toList.contains c

/-- What a query cannot hold in an address of a well-known scheme. -/
def inSpecialQuery (c : Char) : Bool := inQuery c || c == '\''

def inPath (c : Char) : Bool := inFragment c || "#?\x7b\x7d".toList.contains c

/-- What the name and the password of a user cannot hold. -/
def inUser (c : Char) : Bool := inPath c || "/:;=@[\\]^|".toList.contains c

/-- The bytes of a text in which bytes may be written with a percent sign. -/
def decode : List Char → List UInt8
  | '%' :: a :: b :: cs =>
    match Text.hexValue? a, Text.hexValue? b with
    | some m, some n => UInt8.ofNat (m * 16 + n) :: decode cs
    | _, _ => '%'.toUInt8 :: decode (a :: b :: cs)
  | c :: cs => String.utf8EncodeChar c ++ decode cs
  | [] => []

def text? (bytes : List UInt8) : Option String :=
  String.fromUTF8? ⟨bytes.toArray⟩

end Relock.Percent
