import Relock.Cli.Arguments
import Relock.Import
import Relock.Report.Screen
import Relock.Workspace

/-!
# Commands

What the program does with its arguments.

* `detect` names the tool whose metadata is in a directory, and `importing` imports a project.
* `run` reads the arguments and runs the command. It ends with a code, what is written to the two
  outputs and the files as they are then.

A command that fails writes its error last and ends with the code one; arguments that ask for
nothing end with the code two.
-/

namespace Relock.Cli

/-- Where a command runs. -/
structure Setup where
  environment : Environment
  /-- The import path to use if an import is given none. -/
  root : Option String
  /-- The directory in which the program was started. -/
  dir : String
  /-- Whether what is written to standard error is shown by a terminal. -/
  terminal : Bool
  /-- Whether the user wants no colors. -/
  noColor : Bool
deriving DecidableEq

/-- How a run ended. -/
structure Ending where
  code : Nat
  output : String
  errorOutput : String
  files : Files

/-- Why a command failed. -/
abbrev Failure := ImportError

/-- What a command has told, and its output or why it failed. -/
structure Report where
  notices : List Notice
  outcome : Except Failure String
  files : Files

/-- What fails if a file that is there cannot be read. -/
def unreadable : String := "stream did not contain valid UTF-8"

/-- The last words of a command that failed. -/
def Failure.text (painted : Bool) : Failure → String
  | .conversion error => error.diagnostic.render painted
  | .fault fault =>
    let detail := if fault.resource = some .files then ": " ++ unreadable else ""
    "error: " ++ fault.text ++ detail ++ "\n"

def colorChoice (r : Request) : ColorChoice :=
  if r.isOn .noColor then .never else .auto

/-- What a command shows. -/
def screen (setup : Setup) (r : Request) (verbose : Bool) : Screen where
  shell := .onStandardError setup.terminal (.ofFlags (r.isOn .quiet) verbose) (colorChoice r)
  debugging := r.isOn .verbose
  painted := !setup.noColor

/-- The end of a command that shows its report on a screen. -/
def Report.ending (report : Report) (screen : Screen) : Ending :=
  let shown := screen.log report.notices
  match report.outcome with
  | .ok output => ⟨0, output, shown, report.files⟩
  | .error failure => ⟨1, "", shown ++ failure.text screen.shell.painted, report.files⟩

/-- What is told of metadata that was found. -/
def detectionNotices (w : Workspace) (files : Files) (tool : Tool) (config : LoadedConfig) :
    List Notice :=
  let count := toString config.records.length
  .status .detected (tool.name ++ " configuration with " ++ count ++ " dependencies") ::
    ((w.importPath? files w.dir).map fun root =>
      Notice.status .info ("project import path is " ++ root.text)).toList

/-- Names the tool whose metadata is in the directory of a workspace. -/
def detect (w : Workspace) (files : Files) : Report :=
  match Tool.detect? files w.dir with
  | none => ⟨[], .error (.fault (.own (Tool.missingMessage w.dir))), files⟩
  | some tool =>
    match tool.load files w.dir with
    | (.error fault, notices) => ⟨notices, .error (.fault fault), files⟩
    | (.ok config, notices) =>
      ⟨notices ++ detectionNotices w files tool config, .ok (tool.name ++ "\n"), files⟩

/-- A locked project on one line, with what the manifest asks of it. -/
def projectLine (m : Manifest) (project : LockedProject) : String :=
  project.root.text ++ " " ++ project.version.render ++
    (m.constraintFor? project.root).elim "" (fun c => " (" ++ c.render ++ ")") ++ "\n"

/-- What an import writes to its output: the projects that would be locked, in a dry run that may
talk. -/
def importOutput (r : Request) (result : ImportResult) : String :=
  if r.isOn .dryRun ∧ !r.isOn .quiet then
    String.join (result.lock.projects.map (projectLine result.manifest))
  else ""

/-- What is said of a directory without an import path. -/
def missingRootMessage (dir : String) : String :=
  "could not determine the import path of " ++ dir ++
    "\nhelp: Pass the project's import path with `--root`"

/-- The import path of the project to import. -/
def projectRoot (setup : Setup) (r : Request) (w : Workspace) (files : Files) :
    Except Fault ProjectRoot :=
  match r.behind.root <|> setup.root, w.importPath? files w.dir with
  | some root, _ => .ok (.ofString root)
  | none, some root => .ok root
  | none, none => .error (.own (missingRootMessage w.dir))

variable {σ : Type}

/-- Imports the project in the directory of a workspace, with versions from repositories that are
accessed in some way. -/
def importing (access : Url → σ → Git.Access × σ) (setup : Setup) (r : Request) (w : Workspace)
    (files : Files) (remotes : σ) : Report :=
  let prepared := do return (← projectRoot setup r w files, ← w.settings)
  match prepared with
  | .error fault => ⟨[], .error (.fault fault), files⟩
  | .ok (root, settings) =>
    let options := ⟨root, w.config.ignore ++ r.behind.ignored, r.isOn .dryRun⟩
    let ending := Import.run (Git.provider access settings) files w.dir options
      (.start ⟨remotes, []⟩)
    ⟨ending.session.notices, ending.outcome.map (importOutput r), ending.files⟩

def targetDir (setup : Setup) (r : Request) : String :=
  r.behind.path.getD setup.dir

/-- The paths at which a request looks. -/
def pathsLookedAt (setup : Setup) (r : Request) : List String :=
  let dir := targetDir setup r
  [dir, Config.path dir, Path.join dir GlideLock.path] ++ Tool.all.map (Tool.markerPath dir) ++
    Import.outputPaths dir ++ setup.environment.homeDir?.toList.map Config.path ++
    setup.environment.projectTrees.map (Path.join · Workspace.sourcesName)

/-- Carries a request out. -/
def carryOut (access : Url → σ → Git.Access × σ) (setup : Setup) (r : Request) (files : Files)
    (remotes : σ) : Ending :=
  let (w, notices) := Workspace.ofDir setup.environment files (targetDir setup r)
  let (report, verbose) := match r.verb with
    | .detect => (detect w files, false)
    | .importing =>
      (importing access setup r w files remotes, r.isOn .verbose || w.config.verbose)
  { report with notices := notices ++ report.notices }.ending (screen setup r verbose)

def versionLine : String := "depmigrate 0.1.0\n"

/-- What the program can be asked for. -/
def helpText : String :=
  "Convert legacy Go dependency metadata (godep, glide, vndr) into a normalized manifest and " ++
  "lock\n" ++
  "\nUsage: depmigrate [OPTIONS] <COMMAND>\n" ++
  "\nCommands:\n" ++
  "  import [PATH]  Convert legacy metadata into Gopkg.toml and Gopkg.lock\n" ++
  "  detect [PATH]  Show which legacy tool's metadata a project carries\n" ++
  "  help           Print this message\n" ++
  "\nOptions:\n" ++
  "  -v, --verbose   Enable verbose output\n" ++
  "  -q, --quiet     Only print errors\n" ++
  "      --no-color  Disable colored output\n" ++
  "  -h, --help      Print help\n" ++
  "  -V, --version   Print version\n" ++
  "\nOptions of import:\n" ++
  "      --root <ROOT>   Import path of the project [env: DEPMIGRATE_ROOT]\n" ++
  "      --dry-run       Convert and report without writing any files\n" ++
  "      --ignore <PKG>  Additional package to ignore (repeatable)\n"

/-- How a run without a request ends. -/
def Stop.ending (files : Files) : Stop → Ending
  | .help => ⟨0, helpText, "", files⟩
  | .version => ⟨0, versionLine, "", files⟩
  | .usage error => ⟨2, "", "error: " ++ error.message ++ "\n\n" ++ helpText, files⟩

/-- Runs the program. -/
def run (access : Url → σ → Git.Access × σ) (setup : Setup) (arguments : List String)
    (files : Files) (remotes : σ) : Ending :=
  match Request.ofArguments arguments with
  | .ok r => carryOut access setup r files remotes
  | .error stop => stop.ending files

end Relock.Cli
