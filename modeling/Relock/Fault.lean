/-!
# Faults

An error as it is passed on to a caller: a chain of messages, the outermost first, and the
resource that refused, if the chain ends at one. What the resource itself had to say is not part
of a fault.
-/

namespace Relock

/-- What an operation can fail on that follows rules of its own. -/
inductive Resource where
  | json
  | yaml
  | toml
  /-- The file system, and text in it that is not UTF-8. -/
  | files
  | semver
  | url
  | git
deriving DecidableEq

/-- A chain of messages, and the resource at its end. -/
structure Fault where
  messages : List String
  resource : Option Resource
deriving DecidableEq

namespace Fault

/-- An error of this library's own rules. -/
def own (message : String) : Fault := ⟨[message], none⟩

/-- An error that a resource made, and what was being done. -/
def ofResource (message : String) (resource : Resource) : Fault := ⟨[message], some resource⟩

/-- Says around a fault what was being done. -/
def within (message : String) (fault : Fault) : Fault :=
  { fault with messages := message :: fault.messages }

/-- The whole chain on one line. -/
def text (fault : Fault) : String :=
  ": ".intercalate fault.messages

/-- The outermost message. -/
def summary (fault : Fault) : String :=
  fault.messages.headD ""

end Fault

end Relock
