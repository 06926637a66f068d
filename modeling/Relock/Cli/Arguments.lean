/-!
# Arguments

What the words behind the name of the program ask for.

* `Argument.ofString` tells a word from an option, and a long option from letters.
* `Request.ofArguments` reads a whole list of arguments. Three switches may stand before the name of
  a command or behind it; at each of the two places none may be repeated, and only one of quiet and
  verbose may be there.
* `Stop` is why reading ended without a request: a mistake, or that only help or the version was
  wanted. The first argument that stops decides.
-/

namespace Relock.Cli

/-- What an argument looks like. -/
inductive Argument where
  | word (text : String)
  /-- Two dashes and a name, and perhaps a value behind an equals sign. -/
  | long (name : String) (value : Option String)
  /-- A dash and letters. -/
  | letters (letters : List Char)
  /-- Two dashes alone: all that follows is words. -/
  | wordsFollow
deriving DecidableEq

/-- What an argument looks like; a dash alone is a word. -/
def Argument.ofString (text : String) : Argument :=
  match text.toList with
  | ['-', '-'] => .wordsFollow
  | '-' :: '-' :: cs =>
    let value := match cs.dropWhile (· != '=') with
      | [] => none
      | _ :: value => some (String.ofList value)
    .long (String.ofList (cs.takeWhile (· != '='))) value
  | '-' :: c :: cs => .letters (c :: cs)
  | _ => .word text

/-- An option that is on or off. -/
inductive Switch where
  | verbose
  | quiet
  | noColor
  | dryRun
deriving DecidableEq

/-- The name of a switch. -/
def Switch.name : Switch → String
  | verbose => "--verbose"
  | quiet => "--quiet"
  | noColor => "--no-color"
  | dryRun => "--dry-run"

/-- An option with a value. -/
inductive Setting where
  | root
  | ignore
deriving DecidableEq

/-- The name of a setting. -/
def Setting.name : Setting → String
  | root => "--root"
  | ignore => "--ignore"

/-- What is wrong with arguments. -/
inductive UsageError where
  | unexpected (argument : String)
  | missingValue (setting : Setting)
  | unwantedValue (option : String)
  | repeated (option : String)
  | quietAndVerbose
  | emptyPath
  | missingCommand
deriving DecidableEq

/-- What is said of a mistake. -/
def UsageError.message : UsageError → String
  | unexpected argument => "unexpected argument '" ++ argument ++ "' found"
  | missingValue setting => "a value is required for '" ++ setting.name ++ "' but none was supplied"
  | unwantedValue option => "unexpected value for '" ++ option ++ "' found; no more were expected"
  | repeated option => "the argument '" ++ option ++ "' cannot be used multiple times"
  | quietAndVerbose =>
    "the argument '" ++ Switch.quiet.name ++ "' cannot be used with '" ++ Switch.verbose.name ++ "'"
  | emptyPath => "a value is required for '[PATH]' but none was supplied"
  | missingCommand => "a command is required but none was given"

/-- Why there is no request. -/
inductive Stop where
  | help
  | version
  | usage (error : UsageError)
deriving DecidableEq

/-- The commands. -/
inductive Verb where
  | importing
  | detect
deriving DecidableEq

/-- The command of a name. -/
def Verb.named? (name : String) : Option Verb :=
  if name = "import" then some .importing
  else if name = "detect" then some .detect
  else none

/-- What an option stands for. -/
inductive Meaning where
  | switch (switch : Switch)
  | setting (setting : Setting)
  | help
  | version
deriving DecidableEq

/-- What a name stands for, before the command or behind it. -/
def Meaning.ofName? (verb : Option Verb) (name : String) : Option Meaning :=
  if name = "verbose" then some (.switch .verbose)
  else if name = "quiet" then some (.switch .quiet)
  else if name = "no-color" then some (.switch .noColor)
  else if name = "help" then some .help
  else if name = "version" ∧ verb.isNone then some .version
  else if name = "dry-run" ∧ verb = some .importing then some (.switch .dryRun)
  else if name = "root" ∧ verb = some .importing then some (.setting .root)
  else if name = "ignore" ∧ verb = some .importing then some (.setting .ignore)
  else none

/-- What a letter stands for. -/
def Meaning.ofLetter? (verb : Option Verb) : Char → Option Meaning
  | 'v' => some (.switch .verbose)
  | 'q' => some (.switch .quiet)
  | 'h' => some .help
  | 'V' => if verb.isNone then some .version else none
  | _ => none

/-- What is given at one of the two places. -/
structure Given where
  switches : List Switch
  root : Option String
  ignored : List String
  path : Option String
deriving DecidableEq

namespace Given

def empty : Given := ⟨[], none, [], none⟩

/-- Turns a switch on that is not yet on. -/
def turnOn (g : Given) (switch : Switch) : Except Stop Given :=
  if switch ∈ g.switches then .error (.usage (.repeated switch.name))
  else .ok { g with switches := g.switches ++ [switch] }

/-- Gives a setting a value; only packages to ignore may be given more than once. -/
def set (g : Given) (value : String) : Setting → Except Stop Given
  | .root =>
    if g.root.isSome then .error (.usage (.repeated Setting.root.name))
    else .ok { g with root := some value }
  | .ignore => .ok { g with ignored := g.ignored ++ [value] }

/-- Takes the one path that a command can have. -/
def takePath (g : Given) (path : String) : Except Stop Given :=
  if g.path.isSome then .error (.usage (.unexpected path))
  else if path.isEmpty then .error (.usage .emptyPath)
  else .ok { g with path := some path }

/-- Takes letters, each as an option. -/
def takeLetters (verb : Option Verb) (g : Given) : List Char → Except Stop Given
  | [] => .ok g
  | c :: cs =>
    match Meaning.ofLetter? verb c with
    | some (.switch switch) => do takeLetters verb (← g.turnOn switch) cs
    | some .help => .error .help
    | some .version => .error .version
    | _ => .error (.usage (.unexpected (String.ofList ['-', c])))

/-- Takes a long option; a setting without a value takes the next argument. -/
def takeLong (verb : Option Verb) (g : Given) (name : String) (value : Option String) :
    Except Stop (Given × Option Setting) :=
  match Meaning.ofName? verb name, value with
  | none, _ => .error (.usage (.unexpected ("--" ++ name)))
  | some (.setting setting), some value => return (← g.set value setting, none)
  | some (.setting setting), none => .ok (g, some setting)
  | some _, some _ => .error (.usage (.unwantedValue ("--" ++ name)))
  | some (.switch switch), none => return (← g.turnOn switch, none)
  | some .help, none => .error .help
  | some .version, none => .error .version

/-- What is given, if it goes together. -/
def checked (g : Given) : Except Stop Given :=
  if .quiet ∈ g.switches ∧ .verbose ∈ g.switches then .error (.usage .quietAndVerbose) else .ok g

def ofArguments (verb : Verb) (g : Given) : Option Setting → List String → Except Stop Given
  | none, [] => g.checked
  | some setting, [] => .error (.usage (.missingValue setting))
  | some setting, argument :: rest =>
    match Argument.ofString argument with
    | .word value => do ofArguments verb (← g.set value setting) none rest
    | _ => .error (.usage (.missingValue setting))
  | none, argument :: rest =>
    match Argument.ofString argument with
    | .word path => do ofArguments verb (← g.takePath path) none rest
    | .wordsFollow => do (← rest.foldlM takePath g).checked
    | .letters letters => do ofArguments verb (← g.takeLetters verb letters) none rest
    | .long name value => do
      let (g, setting) ← g.takeLong verb name value
      ofArguments verb g setting rest

end Given

/-- What is asked for: a command, with all that is given before and behind it. -/
structure Request where
  verb : Verb
  before : Given
  behind : Given
deriving DecidableEq

namespace Request

def isOn (r : Request) (switch : Switch) : Bool :=
  r.before.switches.contains switch || r.behind.switches.contains switch

/-- What follows the word for help. -/
def helpTopic : List String → Stop
  | [] => .help
  | [topic] =>
    if (Verb.named? topic).isSome ∨ topic = "help" then .help else .usage (.unexpected topic)
  | _ :: argument :: _ => .usage (.unexpected argument)

/-- Reads arguments from the first one that is not yet given. -/
def ofRest (before : Given) : List String → Except Stop Request
  | [] => .error (.usage .missingCommand)
  | argument :: rest =>
    match Argument.ofString argument with
    | .word name =>
      match Verb.named? name with
      | some verb => do
        let behind ← Given.ofArguments verb .empty none rest
        return ⟨verb, ← before.checked, behind⟩
      | none =>
        .error (if name = "help" then helpTopic rest else .usage (.unexpected name))
    | .letters letters => do ofRest (← before.takeLetters none letters) rest
    | .long name value => do ofRest (← before.takeLong none name value).1 rest
    | .wordsFollow => .error (.usage (.unexpected argument))

def ofArguments (arguments : List String) : Except Stop Request :=
  ofRest .empty arguments

end Request

end Relock.Cli
