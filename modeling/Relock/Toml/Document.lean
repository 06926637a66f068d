import Relock.Toml.Statement

/-!
# TOML documents

What the statements of a TOML text add up to. A key may be given once; a table may get a header
once, and not at all if it came about through dotted keys; an array of tables grows by one element
with each of its headers, and the headers and keys below it belong to its last element.
-/

namespace Relock.Toml

/-- How a table came about. -/
inductive Origin where
  /-- By a header of its own. -/
  | header
  /-- By the header of a table inside it. -/
  | implied
  /-- By a dotted key. -/
  | dotted
deriving DecidableEq

/-- A value, a table or an array of tables of a document under construction. -/
inductive Node where
  | value (value : Toml)
  | table (origin : Origin) (entries : List (String × Node))
  | tables (elements : List (List (String × Node)))

/-- The entries of a table under construction. -/
abbrev Entries := List (String × Node)

namespace Node

mutual

/-- The value that a node is when the document is complete. -/
def toValue : Node → Toml
  | value v => v
  | table _ entries => .table (toValues entries)
  | tables elements => .array (toTables elements)

/-- The values of the entries of a table. -/
def toValues : List (String × Node) → List (String × Toml)
  | [] => []
  | (key, node) :: entries => (key, toValue node) :: toValues entries

/-- The elements of an array of tables. -/
def toTables : List (List (String × Node)) → List Toml
  | [] => []
  | entries :: elements => .table (toValues entries) :: toTables elements

end

end Node

namespace Entries

/-- Replaces the node of a key. -/
def set (key : String) (node : Node) : Entries → Entries
  | [] => []
  | entry :: entries =>
    if entry.1 = key then (key, node) :: entries else entry :: set key node entries

/-- Applies a change to the last element of an array of tables. -/
def changeLast (f : Entries → Option Entries) (elements : List Entries) :
    Option (List Entries) := do
  let last ← elements.getLast?
  return elements.dropLast ++ [← f last]

/-- Applies a change inside the table that headers reach by a path; tables on the way that do not
exist yet are implied. -/
def within (f : Entries → Option Entries) : Key → Entries → Option Entries
  | [], entries => f entries
  | key :: path, entries =>
    match entries.lookup key with
    | none => do return entries ++ [(key, .table .implied (← within f path []))]
    | some (.value _) => none
    | some (.table origin inner) => do
      return entries.set key (.table origin (← within f path inner))
    | some (.tables elements) => do
      return entries.set key (.tables (← changeLast (within f path) elements))

/-- Gives a table its header. -/
def openTable (key : String) (entries : Entries) : Option Entries :=
  match entries.lookup key with
  | none => some (entries ++ [(key, .table .header [])])
  | some (.table .implied inner) => some (entries.set key (.table .header inner))
  | _ => none

/-- Adds an element to an array of tables. -/
def openElement (key : String) (entries : Entries) : Option Entries :=
  match entries.lookup key with
  | none => some (entries ++ [(key, .tables [[]])])
  | some (.tables elements) => some (entries.set key (.tables (elements ++ [[]])))
  | _ => none

/-- Gives a value to a dotted key. The tables on the way may only have come about through dotted
keys, or be implied if more parts follow the next one. -/
def assign (value : Toml) : Key → Entries → Option Entries
  | [], _ => none
  | [key], entries =>
    match entries.lookup key with
    | none => some (entries ++ [(key, .value value)])
    | some _ => none
  | key :: path, entries =>
    match entries.lookup key with
    | none => do return entries ++ [(key, .table .dotted (← assign value path []))]
    | some (.value _) => none
    | some (.table origin inner) =>
      if origin = .header ∨ (origin = .implied ∧ path.length = 1) then none
      else do return entries.set key (.table origin (← assign value path inner))
    | some (.tables elements) =>
      if path.length = 1 then none
      else do return entries.set key (.tables (← changeLast (assign value path) elements))

end Entries

namespace Item

mutual

/-- The value of an item; a table on one line must give every key once. -/
def toValue? : Item → Option Toml
  | plain value => some value
  | array items => (toValues? items).map .array
  | table pairs => (addPairs? pairs []).map fun entries => .table (Node.toValues entries)

/-- The values of the items of an array. -/
def toValues? : List Item → Option (List Toml)
  | [] => some []
  | item :: items => do return (← toValue? item) :: (← toValues? items)

/-- Adds the pairs of a table on one line to its entries. -/
def addPairs? : List (Key × Item) → Entries → Option Entries
  | [], entries => some entries
  | (key, item) :: pairs, entries => do
    addPairs? pairs (← entries.assign (← toValue? item) key)

end

end Item

/-- A document under construction, and the path of the header that keys belong to. -/
structure Document where
  header : Key
  entries : Entries

namespace Document

def empty : Document := ⟨[], []⟩

/-- Opens a table or an element by the last part of its path, inside the table of the others. -/
def openAt (f : String → Entries → Option Entries) (key : Key) (d : Document) :
    Option Document := do
  let last ← key.getLast?
  return ⟨key, ← Entries.within (f last) key.dropLast d.entries⟩

/-- Adds a statement. -/
def add? (d : Document) : Statement → Option Document
  | .header key => d.openAt Entries.openTable key
  | .elementHeader key => d.openAt Entries.openElement key
  | .pair key item => do
    let value ← item.toValue?
    return { d with entries := ← Entries.within (Entries.assign value key) d.header d.entries }

end Document

/-- The table that a text describes. -/
def parse? (text : String) : Option Toml := do
  let document ← (← statements? text).foldlM Document.add? .empty
  return .table (Node.toValues document.entries)

end Relock.Toml
