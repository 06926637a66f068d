import Relock.Fault
import Relock.Git.Refs
import Relock.Manifest
import Relock.Source.Provider
import Relock.Url.Basic

/-!
# Versions from repositories

A provider that looks repositories up by their addresses and takes the versions from the refs that
they advertise.

* `addressOf` is the address for a root: of the source, if one is named, else the configured one,
  and else the root itself.
* What a repository tells, and that one is missing, is remembered by address; a failure is not.
* An offline provider accesses nothing, and everything is missing.

How addresses are read and repositories are accessed is a parameter (`Net`): an access may go
differently each time. `provider` and `sourceUrl` read addresses by `Url.parse?`.
-/

namespace Relock.Git

/-- How a provider is set up. -/
structure Settings where
  offline : Bool
  urls : SortedMap ProjectRoot Url

namespace Settings

def empty : Settings := ⟨false, .empty⟩

end Settings

/-- Whether one text is a part of another one. -/
def occurs (part : List Char) : List Char → Bool
  | [] => part.isEmpty
  | c :: cs => part.isPrefixOf (c :: cs) || occurs part cs

/-- Where a source is; without a scheme it is at the usual one. -/
def sourceLocation (source : String) : String :=
  if occurs "://".toList source.toList then source else "https://" ++ source

def rootLocation (root : ProjectRoot) : String := "https://" ++ root.text

/-- Reads the address of a root. -/
def readLocation (parse? : String → Option Url) (root : ProjectRoot) (location : String) :
    Except SourceError Url :=
  match parse? location with
  | some url => .ok url
  | none =>
    let message := "invalid repository location for `" ++ root.text ++ "`: " ++ location
    .error (.other (.ofResource message .url))

/-- The address for a root. -/
def addressOf (parse? : String → Option Url) (s : Settings) (root : ProjectRoot)
    (source : Option String) : Except SourceError Url :=
  match source, s.urls.lookup? root with
  | some source, _ => readLocation parse? root (sourceLocation source)
  | none, some url => .ok url
  | none, none => readLocation parse? root (rootLocation root)

/-- The address for a root, as addresses are read here. -/
def sourceUrl : Settings → ProjectRoot → Option String → Except SourceError Url :=
  addressOf Url.parse?

/-- What came of an access to an address. -/
inductive Access where
  /-- There is a repository with these versions. -/
  | found (versions : List PairedVersion)
  /-- There is none, or none that may be read, for some reason. -/
  | missing (reason : String)
  /-- It cannot be said. -/
  | failed (fault : Fault)
deriving DecidableEq

/-- How addresses are read and repositories are accessed. -/
structure Net (σ : Type) where
  parse? : String → Option Url
  access : Url → σ → Access × σ

/-- What is known of repositories. -/
structure Knowledge (σ : Type) where
  remotes : σ
  /-- What was told by address; none for a missing repository. -/
  listings : List (Url × Option (List PairedVersion))

variable {σ : Type}

/-- Remembers what was told at an address. -/
def Knowledge.remember (k : Knowledge σ) (url : Url) (listing : Option (List PairedVersion)) :
    Knowledge σ :=
  { k with listings := (url, listing) :: k.listings }

def accessNotice (url : Url) : Notice :=
  .trace .info ("Listing refs of " ++ url.render)

/-- Accesses an address. -/
def fetch (access : Url → σ → Access × σ) (url : Url) (k : Knowledge σ) :
    Reply (Knowledge σ) (Option (List PairedVersion)) :=
  let (told, remotes) := access url k.remotes
  let k := { k with remotes }
  match told with
  | .found versions => ⟨.ok (some versions), [accessNotice url], k.remember url (some versions)⟩
  | .missing reason =>
    let note := Notice.trace .debug ("remote " ++ url.render ++ " not available: " ++ reason)
    ⟨.ok none, [accessNotice url, note], k.remember url none⟩
  | .failed fault => ⟨.error (.other fault), [accessNotice url], k⟩

/-- The versions for a root, from memory if possible; none if the repository is missing. -/
def listing (net : Net σ) (s : Settings) (root : ProjectRoot) (source : Option String)
    (k : Knowledge σ) : Reply (Knowledge σ) (Option (List PairedVersion)) :=
  if s.offline then ⟨.ok none, [.trace .debug ("offline, not listing " ++ root.text)], k⟩
  else
    match addressOf net.parse? s root source with
    | .error error => ⟨.error error, [], k⟩
    | .ok url =>
      match k.listings.lookup url with
      | some listing => ⟨.ok listing, [], k⟩
      | none => fetch net.access url k

/-- A missing repository is an error to one who wants its versions. -/
def orNotFound (root : ProjectRoot) (source : Option String) :
    Option (List PairedVersion) → Except SourceError (List PairedVersion)
  | some versions => .ok versions
  | none => .error (.notFound (source.getD root.text))

/-- The provider over a net. -/
def providerOn (net : Net σ) (s : Settings) : Provider (Knowledge σ) where
  name := "git"
  listVersions root source k :=
    let reply := listing net s root source k
    { reply with answer := reply.answer.bind (orNotFound root source) }
  sourceExists root k :=
    let reply := listing net s root none k
    { reply with answer := reply.answer.map Option.isSome }

/-- The provider that accesses repositories in this way. -/
def provider (access : Url → σ → Access × σ) : Settings → Provider (Knowledge σ) :=
  providerOn ⟨Url.parse?, access⟩

end Relock.Git
