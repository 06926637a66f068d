import Relock.Url.Percent
import Relock.Url.Punycode

/-!
# Domain names

Names of hosts in any script, brought to the letters, digits and hyphens of ASCII. Characters that
differ only in case or width are one, some do not count at all, and others no name may hold. A part
of a name that is not ASCII then becomes `xn--` and its punycode; a part that is written so already
must stand for such a text.

The tables cover the scripts of Europe; other characters that a name may hold stand for themselves,
and a letter is not put together with a mark that follows it. Nothing that is shown of providers rests
on this: they take the reading of addresses as it is given to them.
-/

namespace Relock.Domain

/-- Characters from `first` to `last`, every `step`-th of which stands for the one `shift` later. -/
structure CaseRange where
  first : Nat
  last : Nat
  step : Nat
  shift : Nat

/-- The capital letters of Latin, Greek, Cyrillic and Armenian. -/
def capitals : List CaseRange :=
  [⟨0x41, 0x5A, 1, 0x20⟩, ⟨0xC0, 0xD6, 1, 0x20⟩, ⟨0xD8, 0xDE, 1, 0x20⟩, ⟨0x100, 0x12E, 2, 1⟩,
    ⟨0x134, 0x136, 2, 1⟩, ⟨0x139, 0x13D, 2, 1⟩, ⟨0x141, 0x147, 2, 1⟩, ⟨0x14A, 0x176, 2, 1⟩,
    ⟨0x179, 0x17D, 2, 1⟩, ⟨0x370, 0x372, 2, 1⟩, ⟨0x376, 0x376, 1, 1⟩, ⟨0x37F, 0x37F, 1, 0x74⟩,
    ⟨0x386, 0x386, 1, 0x26⟩, ⟨0x388, 0x38A, 1, 0x25⟩, ⟨0x38C, 0x38C, 1, 0x40⟩,
    ⟨0x38E, 0x38F, 1, 0x3F⟩, ⟨0x391, 0x3A1, 1, 0x20⟩, ⟨0x3A3, 0x3AB, 1, 0x20⟩,
    ⟨0x3D8, 0x3EE, 2, 1⟩, ⟨0x400, 0x40F, 1, 0x50⟩, ⟨0x410, 0x42F, 1, 0x20⟩,
    ⟨0x460, 0x480, 2, 1⟩, ⟨0x48A, 0x4BE, 2, 1⟩, ⟨0x4C0, 0x4C0, 1, 0xF⟩, ⟨0x4C1, 0x4CD, 2, 1⟩,
    ⟨0x4D0, 0x52E, 2, 1⟩, ⟨0x531, 0x556, 1, 0x30⟩, ⟨0x1E00, 0x1E94, 2, 1⟩,
    ⟨0x1EA0, 0x1EFE, 2, 1⟩]

/-- Single characters that stand for others. -/
def replacements : List (Char × List Char) :=
  [('ª', ['a']), ('²', ['2']), ('³', ['3']), ('µ', ['μ']), ('¹', ['1']), ('º', ['o']),
    ('¼', ['1', '⁄', '4']), ('½', ['1', '⁄', '2']), ('¾', ['3', '⁄', '4']),
    ('İ', ['i', '\u0307']), ('Ĳ', ['i', 'j']), ('ĳ', ['i', 'j']), ('Ŀ', ['l', '·']),
    ('ŀ', ['l', '·']), ('ŉ', ['ʼ', 'n']), ('Ÿ', ['ÿ']), ('ſ', ['s']), ('ẞ', ['s', 's']),
    ('。', ['.']), ('｡', ['.'])]

def isIn (ranges : List (Nat × Nat)) (c : Char) : Bool :=
  ranges.any fun (first, last) => first ≤ c.toNat && c.toNat ≤ last

/-- The characters that do not count. -/
def ignorable : List (Nat × Nat) :=
  [(0xAD, 0xAD), (0x34F, 0x34F), (0x180B, 0x180D), (0x180F, 0x180F), (0x200B, 0x200B),
    (0x2060, 0x2060), (0x2064, 0x2064), (0xFE00, 0xFE0F), (0xFEFF, 0xFEFF), (0xE0100, 0xE01EF)]

/-- The characters beyond ASCII that no name may hold: controls, spaces and signs that are mapped to
spaces, marks of direction, and characters without a meaning. -/
def forbidden : List (Nat × Nat) :=
  [(0x80, 0xA0), (0xA8, 0xA8), (0xAF, 0xAF), (0xB4, 0xB4), (0xB8, 0xB8), (0x37A, 0x37A),
    (0x384, 0x385), (0x1680, 0x1680), (0x2000, 0x200A), (0x200C, 0x200F), (0x2028, 0x202F),
    (0x205F, 0x205F), (0x2061, 0x2063), (0x2065, 0x206F), (0x3000, 0x3000), (0xE000, 0xF8FF),
    (0xFDD0, 0xFDEF), (0xFFF0, 0xFFFF), (0x1FFFE, 0x1FFFF), (0xE0000, 0xE00FF),
    (0xE01F0, 0x10FFFF)]

/-- Marks that belong to the character before them. -/
def marks : List (Nat × Nat) :=
  [(0x300, 0x36F), (0x483, 0x489), (0x1AB0, 0x1AFF), (0x1DC0, 0x1DFF), (0x20D0, 0x20FF),
    (0xFE20, 0xFE2F)]

/-- The ASCII character that a character of full width stands for. -/
def narrow (c : Char) : Char :=
  if 0xFF01 ≤ c.toNat ∧ c.toNat ≤ 0xFF5E then Char.ofNat (c.toNat - 0xFEE0) else c

/-- A letter in place of a capital one. -/
def lower (c : Char) : Char :=
  let isHit (r : CaseRange) : Bool :=
    r.first ≤ c.toNat && c.toNat ≤ r.last && (c.toNat - r.first) % r.step == 0
  match capitals.find? isHit with
  | some r => Char.ofNat (c.toNat + r.shift)
  | none => c

/-- What a character stands for; none if no name may hold it. -/
def mapping? (c : Char) : Option (List Char) :=
  if isIn ignorable c then some []
  else if isIn forbidden c then none
  else (replacements.lookup c).or (some [lower (narrow c)])

/-- Reduces a text to characters that stand for themselves. -/
def normalize? (cs : List Char) : Option (List Char) :=
  (cs.mapM mapping?).map List.flatten

/-- Characters of ASCII that no name may hold. -/
def isForbidden (c : Char) : Bool :=
  c.toNat ≤ 0x20 || c == '\x7f' || "%#/:<>?@[\\]^|".toList.contains c

def codedMark : List Char := ['x', 'n', '-', '-']

/-- A part of a name, its characters standing for themselves, in ASCII. -/
def label? (label : List Char) : Option (List Char) :=
  match codedMark.isPrefixOf? label with
  | some code => do
    let text ← Punycode.decode? code
    if text.all Punycode.isBasic ∨ normalize? text ≠ some text ∨ text.head?.any (isIn marks) then
      none
    else return label
  | none =>
    if label.head?.any (isIn marks) then none
    else if label.all Punycode.isBasic then some label
    else some (codedMark ++ Punycode.encode label)

/-- A name in ASCII. -/
def toAscii? (name : List Char) : Option (List Char) := do
  let labels ← ((← normalize? name).splitOn '.').mapM label?
  let name := ['.'].intercalate labels
  if name.any isForbidden then none else return name

end Relock.Domain
