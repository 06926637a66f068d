import Relock.Url.Address
import Relock.Url.Domain

/-!
# Addresses of repositories

* `Url` is an address in its parts, each as it is written; `Url.render` writes it.
* `Url.parse?` reads an address. Blanks at its ends and line ends and tabs in it do not count.

Seven schemes are well known. Their addresses have a host, a backslash is a slash to them, and their
usual port is left out. Other schemes take a host as it is written. In a path, a part of one dot
stands for nothing and one of two dots takes back the part before it.
-/

namespace Relock

/-- Who is asked: a host, perhaps as some user and at some port. -/
structure Authority where
  /-- The name of the user, with a colon and a password if there is one. -/
  user : List Char
  host : List Char
  port : Option Nat
deriving DecidableEq

/-- An address. -/
structure Url where
  scheme : List Char
  authority : Option Authority
  path : List Char
  query : Option (List Char)
  fragment : Option (List Char)
deriving DecidableEq

namespace Url

/-! ## Writing -/

/-- Writes an authority. -/
def authorityChars (a : Authority) : List Char :=
  '/' :: '/' :: (if a.user.isEmpty then [] else a.user ++ ['@']) ++ a.host ++
    a.port.elim [] fun port => ':' :: Nat.toDigits 10 port

/-- What stands between scheme and path. Without an authority, a path must not look as if there was
one. -/
def beforePath (url : Url) : List Char :=
  match url.authority with
  | some a => authorityChars a
  | none => if ['/', '/'].isPrefixOf url.path then ['/', '.'] else []

/-- What stands behind the path. -/
def behindPath (url : Url) : List Char :=
  url.query.elim [] ('?' :: ·) ++ url.fragment.elim [] ('#' :: ·)

def render (url : Url) : String :=
  String.ofList (url.scheme ++ ':' :: url.beforePath ++ url.path ++ url.behindPath)

/-! ## Schemes -/

def fileScheme : List Char := "file".toList

/-- The usual ports of the well-known schemes. -/
def usualPort? (scheme : List Char) : Option Nat :=
  if scheme = "http".toList ∨ scheme = "ws".toList then some 80
  else if scheme = "https".toList ∨ scheme = "wss".toList then some 443
  else if scheme = "ftp".toList then some 21
  else none

def isSpecial (scheme : List Char) : Bool :=
  scheme == fileScheme || (usualPort? scheme).isSome

def isSchemeChar (c : Char) : Bool := c.isAlphanum || c == '+' || c == '-' || c == '.'

/-- Reads a scheme and its colon. -/
def scheme? (cs : List Char) : Option (List Char × List Char) :=
  if cs.head?.any Char.isAlpha then
    match cs.dropWhile isSchemeChar with
    | ':' :: rest => some ((cs.takeWhile isSchemeChar).map Char.toLower, rest)
    | _ => none
  else none

/-! ## Hosts -/

/-- A slash, or what a well-known scheme takes for one. -/
def isSlash (special : Bool) (c : Char) : Bool := c == '/' || (special && c == '\\')

/-- Whether a character ends the part of an address in which the host is. -/
def endsAuthority (special : Bool) (c : Char) : Bool :=
  isSlash special c || c == '?' || c == '#'

/-- Reads a host in brackets, which is an address of 128 bits. -/
def bracketHost? (cs : List Char) : Option (List Char) := do
  if cs.getLast? = some ']' then
    let pieces ← Address.parse128? cs.dropLast
    return '[' :: Address.render128 pieces ++ [']']
  else none

/-- Reads a host of a well-known scheme. -/
def domainHost? (cs : List Char) : Option (List Char) := do
  let name ← Domain.toAscii? (← Percent.text? (Percent.decode cs)).toList
  if name.isEmpty then none
  else if Address.endsInNumber name then return Address.render32 (← Address.parse32? name)
  else return name

/-- What a host of another scheme cannot hold. -/
def isHostDelimiter (c : Char) : Bool :=
  c == '\x00' || "\t\n\r #/:<>?@[\\]^|".toList.contains c

/-- Reads a host. -/
def host? (special : Bool) (cs : List Char) : Option (List Char) :=
  match cs with
  | '[' :: cs => bracketHost? cs
  | cs =>
    if special then domainHost? cs
    else if cs.any isHostDelimiter then none
    else some (Percent.encode (fun _ => false) cs)

/-- The host at the front of a text, up to a colon that is not in brackets. -/
def takeHost (inBrackets : Bool) : List Char → List Char
  | [] => []
  | c :: cs =>
    if c = ':' ∧ !inBrackets then []
    else c :: takeHost (c == '[' || (inBrackets && c != ']')) cs

def maxPort : Nat := 65535

/-- Reads a port, if one is given. A backslash ends it in any scheme; what follows belongs to the
path. -/
def port? (usual? : Option Nat) (cs : List Char) : Option (Option Nat × List Char) :=
  let digits := cs.takeWhile Char.isDigit
  let rest := cs.drop digits.length
  let port := Nat.ofDigitChars 10 digits 0
  if maxPort < port ∨ (rest ≠ [] ∧ rest.head? ≠ some '\\') then none
  else some (if digits.isEmpty ∨ some port = usual? then none else some port, rest)

/-- Writes the name of a user and a password, of which an empty one is left out. -/
def userChars (cs : List Char) : List Char :=
  let name := Percent.encode Percent.inUser (cs.takeWhile (· != ':'))
  match cs.dropWhile (· != ':') with
  | ':' :: c :: password => name ++ ':' :: Percent.encode Percent.inUser (c :: password)
  | _ => name

/-- The part of a text before its last at sign, if there is one, and the part after it. -/
def splitUser (cs : List Char) : Option (List Char) × List Char :=
  let host := (cs.reverse.takeWhile (· != '@')).reverse
  if host.length = cs.length then (none, cs)
  else (some (cs.take (cs.length - host.length - 1)), host)

/-- Reads an authority and what a backslash leaves of it to the path. -/
def authority? (scheme : List Char) (cs : List Char) : Option (Authority × List Char) := do
  let special := isSpecial scheme
  let (user?, rest) := splitUser cs
  let hostText := takeHost false rest
  if hostText.isEmpty ∧ (special ∨ user?.isSome ∨ hostText.length < rest.length) then none
  else
    let host ← host? special hostText
    let user := user?.elim [] userChars
    match rest.drop hostText.length with
    | ':' :: port =>
      let (port, rest) ← port? (usualPort? scheme) port
      return (⟨user, host, port⟩, rest)
    | rest => return (⟨user, host, none⟩, rest)

/-! ## Paths -/

/-- A part of a path in which a dot may be written as its byte. -/
def plainDots : List Char → List Char
  | '%' :: '2' :: 'e' :: cs => '.' :: plainDots cs
  | '%' :: '2' :: 'E' :: cs => '.' :: plainDots cs
  | c :: cs => c :: plainDots cs
  | [] => []

/-- A letter and a colon or bar, as some systems name their drives. -/
def isDrive : List Char → Bool
  | [letter, c] => letter.isAlpha && (c == ':' || c == '|')
  | _ => false

/-- Takes back the last part of a path, unless it looks like a drive. -/
def takeBack (parts : List (List Char)) : List (List Char) :=
  if parts.getLast?.any isDrive then parts else parts.dropLast

/-- Follows a part of a path; `isLast` if no slash follows it. -/
def follow (isFile isLast : Bool) (parts : List (List Char)) (part : List Char) :
    List (List Char) :=
  if plainDots part = ['.', '.'] then takeBack parts ++ if isLast then [[]] else []
  else if plainDots part = ['.'] then parts ++ if isLast then [[]] else []
  else if isFile ∧ parts.isEmpty ∧ isDrive part then [part.take 1 ++ [':']]
  else parts ++ [Percent.encode Percent.inPath part]

/-- Follows the parts of a path. -/
def followAll (isFile : Bool) (parts : List (List Char)) : List (List Char) → List (List Char)
  | [] => parts
  | [last] => follow isFile true parts last
  | part :: rest => followAll isFile (follow isFile false parts part) rest

/-- The path of a text that follows its first slash. In a file's path no part at the front is
empty. -/
def pathChars (special isFile : Bool) (cs : List Char) : List Char :=
  let parts := followAll isFile [] (cs.splitOnP (isSlash special))
  let parts :=
    if isFile then parts.dropLast.dropWhile List.isEmpty ++ parts.getLast?.toList else parts
  parts.flatMap ('/' :: ·)

/-- The path that follows an authority. -/
def pathAfterAuthority (special isFile : Bool) (cs : List Char) : List Char :=
  match cs with
  | [] => if special then ['/'] else []
  | c :: rest => pathChars special isFile (if isSlash special c then rest else c :: rest)

/-! ## Reading -/

/-- The parts of a text before its first character that satisfies `p`, and after it. -/
def splitAt? (p : Char → Bool) (cs : List Char) : List Char × Option (List Char) :=
  match cs.dropWhile (!p ·) with
  | [] => (cs, none)
  | _ :: rest => (cs.takeWhile (!p ·), some rest)

/-- Reads what follows the two slashes of an address with an authority. -/
def withAuthority? (scheme cs : List Char) : Option (Authority × List Char) := do
  let special := isSpecial scheme
  let text := cs.takeWhile (! endsAuthority special ·)
  let (authority, rest) ← authority? scheme text
  return (authority, pathAfterAuthority special false (rest ++ cs.drop text.length))

/-- Whether a text that begins with a slash names a drive first. -/
def beginsWithDrive (cs : List Char) : Bool :=
  isDrive ((cs.drop 1).takeWhile (! isSlash true ·))

/-- Reads the host and the path of a file. A path on a drive is one of the same host. -/
def withFileHost? (cs : List Char) : Option (Authority × List Char) := do
  let host := cs.takeWhile (! endsAuthority true ·)
  if host.isEmpty then return (⟨[], [], none⟩, pathAfterAuthority true true cs)
  else if isDrive host then return (⟨[], [], none⟩, pathAfterAuthority true true ('/' :: cs))
  else
    let name ← host? true host
    let path := cs.drop host.length
    let name := if name = "localhost".toList ∨ beginsWithDrive path then [] else name
    return (⟨[], name, none⟩, pathAfterAuthority true true path)

/-- Reads the authority and the path that follow a scheme. -/
def body? (scheme cs : List Char) : Option (Option Authority × List Char) :=
  if scheme = fileScheme then
    match cs with
    | a :: b :: rest =>
      if isSlash true a ∧ isSlash true b then (withFileHost? rest).map (·.map some id)
      else some (some ⟨[], [], none⟩, pathAfterAuthority true true cs)
    | cs => some (some ⟨[], [], none⟩, pathAfterAuthority true true cs)
  else if isSpecial scheme then
    (withAuthority? scheme (cs.dropWhile (isSlash true))).map (·.map some id)
  else
    match cs with
    | '/' :: '/' :: rest => (withAuthority? scheme rest).map (·.map some id)
    | '/' :: rest => some (none, pathChars false false rest)
    | cs => some (none, Percent.encode (fun _ => false) cs)

/-- A blank at the end of an address. -/
def isOuterBlank (c : Char) : Bool := c.toNat ≤ 0x20

def isInnerBlank (c : Char) : Bool := c == '\t' || c == '\n' || c == '\r'

/-- The characters of a text that count. -/
def trimmed (text : String) : List Char :=
  (((text.toList.dropWhile isOuterBlank).reverse.dropWhile isOuterBlank).reverse).filter
    (!isInnerBlank ·)

/-- Reads an address. -/
def parse? (text : String) : Option Url := do
  let (scheme, cs) ← scheme? (trimmed text)
  let (cs, fragment) := splitAt? (· == '#') cs
  let (cs, query) := splitAt? (· == '?') cs
  let (authority, path) ← body? scheme cs
  let inQuery := if isSpecial scheme then Percent.inSpecialQuery else Percent.inQuery
  return ⟨scheme, authority, path, query.map (Percent.encode inQuery),
    fragment.map (Percent.encode Percent.inFragment)⟩

end Url

end Relock
