/-!
# TOML values

* `Toml` is a value. A table is the list of its entries in the order in which their keys were first
  written; a number or a date is its text, which nobody here needs to evaluate.
* The readers at the end look for what a setting should be: a text, a truth value, a list, a table
  of texts, or the fields of a record, which may be given as a table or as an array of them in
  order. A date passes for a table whose only entry is its text, under a key that nobody asks for.
-/

namespace Relock

/-- A TOML value. -/
inductive Toml where
  | string (text : String)
  | boolean (value : Bool)
  | number (text : List Char)
  | date (text : List Char)
  | array (items : List Toml)
  | table (entries : List (String × Toml))

namespace Toml

/-- The text that a value is. -/
def text? : Toml → Option String
  | string text => some text
  | _ => none

/-- The truth value that a value is. -/
def bool? : Toml → Option Bool
  | boolean value => some value
  | _ => none

/-- The list that a value is, each item as `item?` reads it. -/
def list? {α : Type} (item? : Toml → Option α) : Toml → Option (List α)
  | array items => items.mapM item?
  | _ => none

/-- The key of a date's text. -/
def dateKey : String := "$__toml_private_datetime"

/-- The entries of a table of texts. -/
def texts? : Toml → Option (List (String × String))
  | table entries => entries.mapM fun (key, value) => value.text?.map (key, ·)
  | date text => some [(dateKey, String.ofList text)]
  | _ => none

/-- The fields of a record, in the order of `names`, each missing where it is not given. -/
def fields? (names : List String) : Toml → Option (List (Option Toml))
  | table entries => some (names.map fun name => entries.lookup name)
  | array items => some (names.zipIdx.map fun (_, i) => items[i]?)
  | date _ => some (names.map fun _ => none)
  | _ => none

/-- A field that may be missing: none if it is given and not as `read?` wants it. -/
def optional? {α : Type} (read? : Toml → Option α) : Option Toml → Option (Option α)
  | none => some none
  | some value => (read? value).map some

/-- A field with a value to take where it is missing. -/
def orDefault? {α : Type} (missing : α) (read? : Toml → Option α) : Option Toml → Option α
  | none => some missing
  | some value => read? value

end Toml

end Relock
