import Relock.Yaml.Scan

/-!
# YAML nodes

What the tokens of a text describe: one document, which is a tree of nodes.

* `Node` is a text, a sequence, a mapping or an alias. The first three may have the number of an
  anchor.
* `node?` reads a node from the front of a list of tokens. Where nothing stands and something could,
  an empty plain text stands.
* `Document` is a tree with its anchors; `Document.target` follows an alias.
-/

namespace Relock.Yaml

/-- A node of a document. -/
inductive Node where
  | scalar (anchor : Option Nat) (text : String) (isPlain : Bool)
  | sequence (anchor : Option Nat) (items : List Node)
  | mapping (anchor : Option Nat) (pairs : List (Node × Node))
  | reference (number : Nat)

namespace Node

def empty : Node := .scalar none "" true

/-! ## Properties -/

/-- What stands before the content of a node: an anchor and a tag in any order. Gives the number of
the anchor, whether there was either, and the tokens after them. -/
def properties : List Token → Option Nat × Bool × List Token
  | .anchor n :: .tag _ :: ts => (some n, true, ts)
  | .tag _ :: .anchor n :: ts => (some n, true, ts)
  | .anchor n :: ts => (some n, true, ts)
  | .tag _ :: ts => (none, true, ts)
  | ts => (none, false, ts)

/-! ## Reading -/

/-- Whether nothing stands in a sequence without brackets before these tokens. -/
def endsItem : List Token → Bool
  | .item :: _ => true
  | .blockEnd :: _ => true
  | _ => false

/-- Whether nothing stands in a mapping without brackets before these tokens. -/
def endsPair : List Token → Bool
  | .key :: _ => true
  | .colon :: _ => true
  | .blockEnd :: _ => true
  | _ => false

/-- Whether nothing stands in a sequence in brackets before these tokens. -/
def endsBracketItem : List Token → Bool
  | .comma :: _ => true
  | .closeSequence :: _ => true
  | _ => false

/-- Whether nothing stands in a mapping in brackets before these tokens. -/
def endsBracketPair : List Token → Bool
  | .comma :: _ => true
  | .closeMapping :: _ => true
  | _ => false

/-- Whether a colon is the first of these tokens. -/
def beginsWithColon : List Token → Bool
  | .colon :: _ => true
  | _ => false

/-- Where a node stands, as far as it matters to what may stand there. -/
inductive Position where
  /-- In brackets, where only collections in brackets may stand. -/
  | inBrackets
  /-- An item, or a whole document. -/
  | outside
  /-- A key or a value of a mapping without brackets, where dashes need no indentation. -/
  | inPair
deriving DecidableEq

/-- Drops what separates an item or a pair from the one before it. -/
def dropComma? (isFirst : Bool) : List Token → Option (List Token)
  | .comma :: ts => if isFirst then some (.comma :: ts) else some ts
  | ts => if isFirst then some ts else none

mutual

/-- Reads a node. -/
def node? : Nat → Position → List Token → Option (Node × List Token)
  | 0, _, _ => none
  | _ + 1, _, .reference n :: ts => some (.reference n, ts)
  | room + 1, position, tokens =>
    let (anchor, isGiven, ts) := properties tokens
    match ts with
    | .scalar text isPlain :: ts => some (.scalar anchor (String.ofList text) isPlain, ts)
    | .openSequence :: ts => (bracketItems? room true ts).map (·.map (.sequence anchor) id)
    | .openMapping :: ts => (bracketPairs? room true ts).map (·.map (.mapping anchor) id)
    | ts =>
      if position = .inPair ∧ ts.head? = some .item then
        (pairItems? room ts).map (·.map (.sequence anchor) id)
      else if position ≠ .inBrackets ∧ ts.head? = some .blockSequence then
        (items? room (ts.drop 1)).map (·.map (.sequence anchor) id)
      else if position ≠ .inBrackets ∧ ts.head? = some .blockMapping then
        (pairs? room (ts.drop 1)).map (·.map (.mapping anchor) id)
      else if isGiven then some (.scalar anchor "" true, ts)
      else none

/-- Reads the items of a sequence without brackets, and its end. -/
def items? : Nat → List Token → Option (List Node × List Token)
  | room + 1, .item :: ts => do
    let (item, ts) ← if endsItem ts then some (.empty, ts) else node? room .outside ts
    let (items, ts) ← items? room ts
    return (item :: items, ts)
  | _, .blockEnd :: ts => some ([], ts)
  | _, _ => none

/-- Reads the items of a sequence whose dashes stand in the columns of keys; another token ends
it. -/
def pairItems? : Nat → List Token → Option (List Node × List Token)
  | room + 1, .item :: ts => do
    let (item, ts) ←
      if endsItem ts || endsPair ts then some (.empty, ts) else node? room .outside ts
    let (items, ts) ← pairItems? room ts
    return (item :: items, ts)
  | _, ts => some ([], ts)

/-- Reads a value, if a colon announces one. -/
def value? : Nat → List Token → Option (Node × List Token)
  | room + 1, .colon :: ts => if endsPair ts then some (.empty, ts) else node? room .inPair ts
  | _, ts => some (.empty, ts)

/-- Reads the pairs of a mapping without brackets, and its end. -/
def pairs? : Nat → List Token → Option (List (Node × Node) × List Token)
  | room + 1, .key :: ts => do
    let (key, ts) ← if endsPair ts then some (.empty, ts) else node? room .inPair ts
    let (value, ts) ← value? room ts
    let (pairs, ts) ← pairs? room ts
    return ((key, value) :: pairs, ts)
  | _, .blockEnd :: ts => some ([], ts)
  | _, _ => none

/-- Reads a value in brackets before tokens that `ends` finds, if a colon announces one. -/
def bracketValue? (ends : List Token → Bool) : Nat → List Token → Option (Node × List Token)
  | room + 1, .colon :: ts => if ends ts then some (.empty, ts) else node? room .inBrackets ts
  | _, ts => some (.empty, ts)

/-- Reads an item in brackets. One that begins with the sign of a key is a mapping of one pair; if
nothing stands as the key, the next token is passed over. -/
def bracketItem? : Nat → List Token → Option (Node × List Token)
  | room + 1, .key :: ts => do
    let (key, ts) ←
      if endsBracketItem ts || beginsWithColon ts then some (.empty, ts.drop 1)
      else node? room .inBrackets ts
    let (value, ts) ← bracketValue? endsBracketItem room ts
    return (.mapping none [(key, value)], ts)
  | room + 1, ts => node? room .inBrackets ts
  | 0, _ => none

/-- Reads the items of a sequence in brackets, and its end. -/
def bracketItems? : Nat → Bool → List Token → Option (List Node × List Token)
  | _, _, .closeSequence :: ts => some ([], ts)
  | room + 1, isFirst, ts => do
    match ← dropComma? isFirst ts with
    | .closeSequence :: ts => return ([], ts)
    | ts =>
      let (item, ts) ← bracketItem? room ts
      let (items, ts) ← bracketItems? room false ts
      return (item :: items, ts)
  | 0, _, _ => none

/-- Reads a pair in brackets; without the sign of a key it is a key alone. -/
def bracketPair? : Nat → List Token → Option ((Node × Node) × List Token)
  | room + 1, .key :: ts => do
    let (key, ts) ←
      if endsBracketPair ts || beginsWithColon ts then some (.empty, ts)
      else node? room .inBrackets ts
    let (value, ts) ← bracketValue? endsBracketPair room ts
    return ((key, value), ts)
  | room + 1, ts => (node? room .inBrackets ts).map (·.map (·, .empty) id)
  | 0, _ => none

/-- Reads the pairs of a mapping in brackets, and its end. -/
def bracketPairs? : Nat → Bool → List Token → Option (List (Node × Node) × List Token)
  | _, _, .closeMapping :: ts => some ([], ts)
  | room + 1, isFirst, ts => do
    match ← dropComma? isFirst ts with
    | .closeMapping :: ts => return ([], ts)
    | ts =>
      let (pair, ts) ← bracketPair? room ts
      let (pairs, ts) ← bracketPairs? room false ts
      return (pair :: pairs, ts)
  | 0, _, _ => none

end

/-! ## Anchors -/

mutual

/-- The nodes in a tree that have the number of an anchor, in the order of the text. -/
def anchored : Node → List (Nat × Node)
  | scalar anchor text isPlain => (anchor.map (·, scalar anchor text isPlain)).toList
  | sequence anchor items => (anchor.map (·, sequence anchor items)).toList ++ anchoredItems items
  | mapping anchor pairs => (anchor.map (·, mapping anchor pairs)).toList ++ anchoredPairs pairs
  | reference _ => []

/-- The nodes in the items of a sequence that have the number of an anchor. -/
def anchoredItems : List Node → List (Nat × Node)
  | [] => []
  | item :: items => anchored item ++ anchoredItems items

/-- The nodes in the pairs of a mapping that have the number of an anchor. -/
def anchoredPairs : List (Node × Node) → List (Nat × Node)
  | [] => []
  | (key, value) :: pairs => anchored key ++ anchored value ++ anchoredPairs pairs

end

end Node

/-- A tree of nodes, and the nodes in it that aliases lead to, the last of the text first. -/
structure Document where
  root : Node
  targets : List (Nat × Node)

namespace Document

/-- The document of a tree. -/
def ofNode (root : Node) : Document := ⟨root, root.anchored.reverse⟩

/-- The node that a node stands for. -/
def target (d : Document) : Node → Node
  | .reference n => (d.targets.lookup n).getD .empty
  | node => node

/-! ## Directives -/

/-- What the directives before a document declare. -/
structure Declared where
  hasVersion : Bool
  handles : List (List Char)

/-- Reads the directives in front of a document. The version must be 1.1 or 1.2 and is declared
once, and so is every handle. -/
def directives? (d : Declared) : List Token → Option (Declared × List Token)
  | .versionDirective major minor :: ts =>
    if d.hasVersion ∨ major ≠ 1 ∨ (minor ≠ 1 ∧ minor ≠ 2) then none
    else directives? { d with hasVersion := true } ts
  | .tagDirective handle :: ts =>
    if handle ∈ d.handles then none
    else directives? { d with handles := handle :: d.handles } ts
  | ts => some (d, ts)

/-- Whether tokens begin a document with a sign of its own. -/
def beginsExplicitly : List Token → Bool
  | .versionDirective _ _ :: _ => true
  | .tagDirective _ :: _ => true
  | .documentStart :: _ => true
  | _ => false

def knownHandles : List (List Char) := [[], ['!'], ['!', '!']]

/-- Enough room to read the tree of some tokens: at one token at most three readings begin that do
not move on. -/
def roomFor (ts : List Token) : Nat := 4 * (ts.length + 1)

/-- Whether all tags are abbreviated by declared handles, if at all. -/
def tagsAreKnown (handles : List (List Char)) (ts : List Token) : Bool :=
  ts.all fun
    | .tag handle => handles.contains handle || knownHandles.contains handle
    | _ => true

/-- The tree of a document that begins with a sign of its own. -/
def explicit? (ts : List Token) : Option (Node × List Token) := do
  match ← directives? ⟨false, []⟩ ts with
  | (declared, .documentStart :: ts) =>
    if !tagsAreKnown declared.handles ts then none
    else if ts.isEmpty || beginsExplicitly ts || ts.head? == some .documentEnd then
      return (.empty, ts)
    else Node.node? (roomFor ts) .outside ts
  | _ => none

/-- The tree of a document that begins without a sign. -/
def implicit? (ts : List Token) : Option (Node × List Token) :=
  if tagsAreKnown [] ts then Node.node? (roomFor ts) .outside ts else none

/-- The document of a list of tokens, unless there are several. -/
def ofTokens? (ts : List Token) : Option Document := do
  if ts.isEmpty then return ofNode .empty
  else
    let (root, ts) ← if beginsExplicitly ts then explicit? ts else implicit? ts
    if (ts.dropWhile (· == .documentEnd)).isEmpty then return ofNode root else none

def parse? (text : String) : Option Document :=
  (tokens? text).bind ofTokens?

end Document

end Relock.Yaml
