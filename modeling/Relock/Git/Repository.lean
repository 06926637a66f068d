import Relock.Files.Basic
import Relock.Git.Provider

/-!
# Repositories on the same host

What a repository advertises, and the access to repositories that are kept in directories of a tree
of files. Their addresses have the scheme of files; no other address can be accessed here.
-/

namespace Relock.Git

/-- What a ref points at. -/
inductive Target where
  | commit (id : String)
  /-- A tag object, which points at a commit. -/
  | tagObject (id commit : String)

namespace Target

/-- The object itself. -/
def id : Target → String
  | commit id => id
  | tagObject id _ => id

end Target

/-- A repository. -/
structure Repository where
  refs : SortedMap String Target
  /-- The name of the ref that is shown by default, which need not exist. -/
  head : String

namespace Repository

/-- What a ref adds to the advertisement. -/
def advertiseRef (name : String) : Target → List Ref
  | .commit id => [(name, id)]
  | .tagObject id commit => [(name, id), (name ++ peelMark, commit)]

/-- All that a repository advertises: what is shown by default, and the refs by their names. -/
def advertise (r : Repository) : List Ref :=
  ((r.refs.lookup? r.head).map fun target => ("HEAD", target.id)).toList ++
    r.refs.entries.flatMap fun (name, target) => advertiseRef name target

def default? (r : Repository) : Option String :=
  (r.refs.lookup? r.head).map fun _ => r.head

def versions (r : Repository) : List PairedVersion :=
  versionsOfRefs r.advertise r.default?

end Repository

/-- The repositories of a host. -/
structure Host where
  files : Files
  /-- The repositories by the names that lead to their directories. -/
  repositories : List (List String × Repository)

namespace Host

/-- The path of a directory that an address names. Question and number signs belong to it. -/
def path? (url : Url) : Option String := do
  let authority ← url.authority
  if url.scheme = Url.fileScheme ∧ authority.host.isEmpty then
    Percent.text? (Percent.decode (url.path ++ url.behindPath))
  else none

/-- The repository at an address. -/
def repository? (h : Host) (url : Url) : Option Repository := do
  match h.files.place? (← path? url) with
  | some (.directory names) => h.repositories.lookup names
  | _ => none

/-- Accesses an address. -/
def access (url : Url) (h : Host) : Access × Host :=
  match h.repository? url with
  | some r => (.found r.versions, h)
  | none => (.failed (.ofResource ("failed to connect to " ++ url.render) .git), h)

end Host

end Relock.Git
