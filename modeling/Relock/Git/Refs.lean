import Relock.Version.Basic

/-!
# Advertised refs

What a repository tells of itself: the names of its refs, each with the object it points at. An
annotated tag is told twice, once with the tag object and once, with `^{}` behind its name, with the
commit that counts.

`versionsOfRefs` makes versions of the branches and tags among the refs, the tags first.
-/

namespace Relock.Git

/-- The name of a ref, and the object it points at. -/
abbrev Ref := String × String

def branchPath : String := "refs/heads/"

def tagPath : String := "refs/tags/"

/-- What stands behind the name of an annotated tag when its commit is told. -/
def peelMark : String := "^\x7b\x7d"

def dropFront? (front text : String) : Option String :=
  (front.toList.isPrefixOf? text.toList).map String.ofList

def dropBack? (back text : String) : Option String :=
  (back.toList.isSuffixOf? text.toList).map String.ofList

/-- The branch that a ref is. -/
def branch? (default? : Option String) (ref : Ref) : Option PairedVersion :=
  (dropFront? branchPath ref.1).map fun name =>
    ⟨.branch name (default? == some ref.1), ⟨ref.2⟩⟩

/-- Gives a tag a commit, which counts more than an object it was given. -/
def setCommit (tag commit : String) : List Ref → List Ref
  | [] => [(tag, commit)]
  | entry :: tags =>
    if entry.1 = tag then (tag, commit) :: tags else entry :: setCommit tag commit tags

/-- Takes a ref in, if it is one of a tag. -/
def addTag (tags : List Ref) (ref : Ref) : List Ref :=
  match dropFront? tagPath ref.1 with
  | none => tags
  | some name =>
    match dropBack? peelMark name with
    | some tag => setCommit tag ref.2 tags
    | none => if tags.any (·.1 = name) then tags else tags ++ [(name, ref.2)]

/-- The tags among the refs, in the order in which they are first told. -/
def tagsOfRefs (refs : List Ref) : List Ref :=
  refs.foldl addTag []

/-- The versions that refs are, given the name of the ref that is the default branch. -/
def versionsOfRefs (refs : List Ref) (default? : Option String) : List PairedVersion :=
  (tagsOfRefs refs).map (fun (tag, commit) => ⟨.ofTag tag, ⟨commit⟩⟩) ++
    refs.filterMap (branch? default?)

end Relock.Git
