import Relock.Fault
import Relock.Report.Notice
import Relock.Root.Basic
import Relock.Version.Basic

/-!
# Providers of versions

A provider answers two questions about repositories: which versions one publishes, and whether one
lives at a root. It has a state of its own, so that the same question may be answered differently
later on, or fail.

* `Provider` is the two questions, `Reply` an answer with what was to tell and the next state.
* `Session` is what a run of an operation has done so far: the provider's state, the questions
  asked and the notices given, each in order.
* `Provider.fixed` answers from two fixed functions, and `Provider.ofTable` from a table.
-/

namespace Relock

/-- Why a provider has no answer. -/
inductive SourceError where
  /-- There is no repository at a location, or none that can be reached. -/
  | notFound (location : String)
  | other (fault : Fault)
deriving DecidableEq

namespace SourceError

/-- The text of a source error. -/
def message : SourceError → String
  | notFound location => "source not found: `" ++ location ++ "`"
  | other fault => fault.text

end SourceError

/-- A provider's answer. -/
structure Reply (σ α : Type) where
  answer : Except SourceError α
  notices : List Notice
  state : σ

/-- The two questions, asked in a state. -/
structure Provider (σ : Type) where
  name : String
  /-- All tags and branches of the repository of a root, or of the fork or copy named instead. -/
  listVersions : ProjectRoot → Option String → σ → Reply σ (List PairedVersion)
  /-- Whether a repository lives exactly at a root. -/
  sourceExists : ProjectRoot → σ → Reply σ Bool

/-- A question that was asked. -/
inductive Question where
  | versions (root : ProjectRoot) (source : Option String)
  | existence (root : ProjectRoot)
deriving DecidableEq

/-- What has happened in a run. -/
structure Session (σ : Type) where
  state : σ
  questions : List Question
  notices : List Notice

namespace Session

variable {σ : Type}

def start (state : σ) : Session σ := ⟨state, [], []⟩

def tell (notice : Notice) (s : Session σ) : Session σ :=
  { s with notices := s.notices ++ [notice] }

def tellAll (notices : List Notice) (s : Session σ) : Session σ :=
  { s with notices := s.notices ++ notices }

/-- Asks for the versions of a root. -/
def listVersions (provider : Provider σ) (root : ProjectRoot) (source : Option String)
    (s : Session σ) : Except SourceError (List PairedVersion) × Session σ :=
  let reply := provider.listVersions root source s.state
  (reply.answer, ⟨reply.state, s.questions ++ [.versions root source], s.notices ++ reply.notices⟩)

/-- Asks whether a repository lives at a root. -/
def sourceExists (provider : Provider σ) (root : ProjectRoot) (s : Session σ) :
    Except SourceError Bool × Session σ :=
  let reply := provider.sourceExists root s.state
  (reply.answer, ⟨reply.state, s.questions ++ [.existence root], s.notices ++ reply.notices⟩)

end Session

namespace Provider

/-- The provider that answers from two fixed functions and has nothing to tell. -/
def fixed (name : String)
    (versions : ProjectRoot → Option String → Except SourceError (List PairedVersion))
    (existence : ProjectRoot → Except SourceError Bool) : Provider Unit where
  name := name
  listVersions root source _ := ⟨versions root source, [], ()⟩
  sourceExists root _ := ⟨existence root, [], ()⟩

/-- The provider that answers from a table of versions by location, the location being the source
if one is named and else the root. A location in the table of errors fails, and one in neither
table is not found. -/
def ofTable (name : String) (sources : List (String × List PairedVersion))
    (errors : List (String × SourceError)) : Provider Unit :=
  fixed name
    (fun root source =>
      let location := source.getD root.text
      match errors.lookup location, sources.lookup location with
      | some error, _ => .error error
      | none, some versions => .ok versions
      | none, none => .error (.notFound location))
    (fun root =>
      match errors.lookup root.text with
      | some error => .error error
      | none => .ok (sources.lookup root.text).isSome)

end Provider

end Relock
