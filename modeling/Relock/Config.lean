import Relock.Files.Basic
import Relock.Report.Notice
import Relock.SortedMap
import Relock.Toml.Document

/-!
# Configuration

What a user has set once for all imports, and what a project has set for its own.

* `ConfigFile` is what a configuration file says, which may be nothing of a setting; `Config` is
  what counts then.
* `Config.merge` lays a configuration over another one: packages to ignore come together, addresses
  are replaced root by root, and a switch that is on in either is on.
* `Files.loadMergedConfig` lays the configuration of a project over the one of the user. A file that
  cannot be read only earns a trace line.
-/

namespace Relock

/-- What a configuration file says. -/
structure ConfigFile where
  /-- Packages to be ignored by every import. -/
  ignore : List String
  /-- Whether details are to be shown. -/
  verbose : Option Bool
  /-- Addresses to use for roots, as they are written. -/
  sources : SortedMap String String
  /-- Whether no repository may be accessed. -/
  offline : Option Bool
deriving DecidableEq

/-- The settings that count. -/
structure Config where
  ignore : List String
  verbose : Bool
  sources : SortedMap String String
  offline : Bool
deriving DecidableEq

namespace ConfigFile

def empty : ConfigFile := ⟨[], none, .empty, none⟩

/-- Reads the settings of imports into a file. -/
def withImport? (file : ConfigFile) (value : Toml) : Option ConfigFile := do
  match ← value.fields? ["ignore", "verbose", "sources"] with
  | [ignore, verbose, sources] =>
    let sources ← Toml.orDefault? [] Toml.texts? sources
    return { file with
      ignore := ← Toml.orDefault? [] (Toml.list? Toml.text?) ignore
      verbose := ← Toml.optional? Toml.bool? verbose
      sources := SortedMap.empty.insertAll sources }
  | _ => none

/-- Reads the settings of the network into a file. -/
def withNet? (file : ConfigFile) (value : Toml) : Option ConfigFile := do
  match ← value.fields? ["offline"] with
  | [offline] => return { file with offline := ← Toml.optional? Toml.bool? offline }
  | _ => none

/-- The file that a value describes. -/
def ofToml? (value : Toml) : Option ConfigFile := do
  match ← value.fields? ["import", "net"] with
  | [importing, net] =>
    let file ← importing.elim (some empty) empty.withImport?
    net.elim (some file) file.withNet?
  | _ => none

def parse? (text : String) : Option ConfigFile :=
  (Toml.parse? text).bind ofToml?

end ConfigFile

namespace Config

def empty : Config := ⟨[], false, .empty, false⟩

/-- The settings of a file; a switch of which it says nothing is off. -/
def ofFile (file : ConfigFile) : Config :=
  ⟨file.ignore, file.verbose.getD false, file.sources, file.offline.getD false⟩

def addNew (texts : List String) (text : String) : List String :=
  if text ∈ texts then texts else texts ++ [text]

/-- Lays a configuration over another one. -/
def merge (c later : Config) : Config where
  ignore := later.ignore.foldl addNew c.ignore
  verbose := c.verbose || later.verbose
  sources := c.sources.insertAll later.sources.entries
  offline := c.offline || later.offline

/-- What is told of a configuration that cannot be read. -/
def failureNotice (path : String) (fault : Fault) : Notice :=
  .trace .warn ("Failed to load config from " ++ path ++ ": " ++ fault.summary)

def dirName : String := ".depmigrate"

/-- Where the configuration of a project or of a user is kept. -/
def path (dir : String) : String :=
  Path.join (Path.join dir dirName) "config.toml"

end Config

namespace Files

/-- What a configuration file says. -/
def loadConfigFile (f : Files) (path : String) : Except Fault ConfigFile := do
  match ConfigFile.parse? (← f.read "config file: " path) with
  | some file => return file
  | none => throw (.ofResource ("failed to parse config file: " ++ path) .toml)

def loadConfig (f : Files) (path : String) : Except Fault Config :=
  (f.loadConfigFile path).map Config.ofFile

/-- The configuration in a file; nothing is set if there is no file or it cannot be read. -/
def loadConfigOrEmpty (f : Files) (path : String) : Config × List Notice :=
  if f.contains path then
    match f.loadConfig path with
    | .ok config => (config, [])
    | .error fault => (.empty, [Config.failureNotice path fault])
  else (.empty, [])

/-- The configuration of a project laid over the one of the user. -/
def loadMergedConfig (f : Files) (user? : Option String) (project : String) :
    Config × List Notice :=
  let (user, userNotices) := user?.elim (Config.empty, []) f.loadConfigOrEmpty
  let (own, ownNotices) := f.loadConfigOrEmpty project
  ((Config.empty.merge user).merge own, userNotices ++ ownNotices)

end Files

end Relock
