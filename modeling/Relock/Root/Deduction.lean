import Relock.Resolve.Error
import Relock.Root.Convention

/-!
# Deducing roots

From import paths to roots, remembering what was found. A path is answered, in this order,

1. as it was answered before, if it was;
2. by the first root found so far that contains it;
3. by hosting conventions;
4. by asking the provider about its beginnings of two, three and more segments, until one is a
   repository.

If the provider fails, the deduction fails too, and nothing is remembered.
-/

namespace Relock

/-- The roots and the answers found so far. -/
structure Deducer where
  /-- The roots, in the order they were found. -/
  roots : List ProjectRoot
  /-- The answers by path; none for a path without a root. -/
  answers : List (String × Option ProjectRoot)
deriving DecidableEq

namespace Deducer

variable {σ : Type}

def empty : Deducer := ⟨[], []⟩

/-- The beginnings of a path of at least two segments, from the shortest to the path itself. -/
def candidates (path : String) : List ProjectRoot :=
  let parts := segments path.toList
  (List.range' 2 (parts.length - 1)).map fun n => .ofChars (joinSegments (parts.take n))

/-- Asks about the candidates one by one until one is a repository. -/
def probe (provider : Provider σ) : List ProjectRoot → Session σ →
    Except ResolveError (Option ProjectRoot) × Session σ
  | [], s => (.ok none, s)
  | candidate :: rest, s =>
    match s.sourceExists provider candidate with
    | (.ok true, s) => (.ok (some candidate), s)
    | (.ok false, s) => probe provider rest s
    | (.error error, s) => (.error (.ofProbe candidate error), s)

/-- Looks for a root of a path by convention, and else by asking. -/
def search (provider : Provider σ) (path : String) (s : Session σ) :
    Except ResolveError (Option ProjectRoot) × Session σ :=
  match Convention.root? path with
  | some root => (.ok (some root), s)
  | none => probe provider (candidates path) s

def remember (path : String) (root? : Option ProjectRoot) (d : Deducer) : Deducer :=
  { d with answers := (path, root?) :: d.answers }

/-- Remembers a root found for a path. -/
def discover (path : String) (root : ProjectRoot) (d : Deducer) : Deducer :=
  { d.remember path (some root) with roots := d.roots ++ [root] }

/-- An answer, as what the asker gets. -/
def answer (path : String) : Option ProjectRoot → Except ResolveError ProjectRoot
  | some root => .ok root
  | none => .error (.unresolvable path)

/-- What is told of a root that was found. -/
def discovery (path : String) (root : ProjectRoot) : Notice :=
  .trace .debug ("deduced root " ++ root.text ++ " for " ++ path)

/-- The root of a path without slashes at its ends, for which no earlier finding stands. -/
def find (provider : Provider σ) (path : String) (d : Deducer) (s : Session σ) :
    Except ResolveError ProjectRoot × Deducer × Session σ :=
  match search provider path s with
  | (.ok (some root), s) => (.ok root, d.discover path root, s.tell (discovery path root))
  | (.ok none, s) => (.error (.unresolvable path), d.remember path none, s)
  | (.error error, s) => (.error error, d, s)

/-- The root of an import path. -/
def deduce (provider : Provider σ) (importPath : String) (d : Deducer) (s : Session σ) :
    Except ResolveError ProjectRoot × Deducer × Session σ :=
  let path := trimSlashes importPath
  match d.answers.lookup path with
  | some root? => (answer path root?, d, s)
  | none =>
    match d.roots.find? (·.contains path) with
    | some root => (.ok root, d.remember path (some root), s)
    | none => find provider path d s

end Deducer

end Relock
