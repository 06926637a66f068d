import Relock.Config
import Relock.Git.Provider

/-!
# Workspaces

A directory to work in, with the configuration that counts there and the trees in which projects are
kept by their import paths.

* `Workspace.ofDir` looks around from a directory.
* `Workspace.importPath?` is the import path of a directory, by its place in one of the trees.
* `Workspace.settings` is how the provider is to be set up.
-/

namespace Relock

/-- What a user has set for all programs. -/
structure Environment where
  /-- The user's home directory. -/
  home : Option String
  /-- The trees of projects, with colons between them. -/
  trees : Option String
deriving DecidableEq

namespace Environment

def homeDir? (e : Environment) : Option String := e.home.filter (! ·.isEmpty)

/-- The directories of the trees of projects; one at home if none is given. -/
def projectTrees (e : Environment) : List String :=
  match e.trees.filter (! ·.isEmpty) with
  | some given => (given.toList.splitOn ':').map String.ofList
  | none => e.homeDir?.toList.map (Path.join · "go")

end Environment

/-- A directory to work in. -/
structure Workspace where
  dir : String
  config : Config
  /-- The trees of projects, in the order in which they are searched. -/
  trees : List String
deriving DecidableEq

namespace Workspace

/-- The workspace of a directory, and what was to tell about its configuration. -/
def ofDir (e : Environment) (f : Files) (dir : String) : Workspace × List Notice :=
  let (config, notices) := f.loadMergedConfig (e.homeDir?.map Config.path) (Config.path dir)
  (⟨dir, config, e.projectTrees⟩, notices)

/-- A path without links, as far as it leads to something. -/
def settled (f : Files) (path : String) : String :=
  (f.realPath? path).getD path

def sourcesName : String := "src"

/-- The import path of a directory in a tree, unless the directory is elsewhere or the tree's own.
-/
def importPathIn? (f : Files) (dir tree : String) : Option ProjectRoot :=
  match Path.namesBelow? (settled f (Path.join tree sourcesName)) (settled f dir) with
  | some (name :: names) => some (.ofString ("/".intercalate (name :: names)))
  | _ => none

/-- The import path of a directory in the first tree that has one for it. -/
def importPath? (w : Workspace) (f : Files) (dir : String) : Option ProjectRoot :=
  w.trees.findSome? (importPathIn? f dir)

/-- Takes an address from the configuration. -/
def addSource (urls : SortedMap ProjectRoot Url) (source : String × String) :
    Except Fault (SortedMap ProjectRoot Url) :=
  match Url.parse? source.2 with
  | some url => .ok (urls.insert (.ofString source.1) url)
  | none =>
    .error (.ofResource ("invalid source URL for `" ++ source.1 ++ "`: " ++ source.2) .url)

def settings (w : Workspace) : Except Fault Git.Settings := do
  return ⟨w.config.offline, ← w.config.sources.entries.foldlM addSource .empty⟩

end Workspace

end Relock
