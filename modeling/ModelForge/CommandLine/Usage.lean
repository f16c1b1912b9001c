/-
The command line: which options there are, and how arguments are read.

An option has a long name and mostly a short one. A value stands in the next argument, after
`=`, or directly after a short name; short names without a value may be joined. An argument
that starts with a dash is never taken for a value, and no option but the verbosity may be
given twice. Arguments are read from left to right, and the first that cannot be used ends
the reading; a request for help or for the version that was met before is answered.

* `readArguments` — what a command line asks for;
* `UsageError.message` — why it asks for nothing.
-/
namespace ModelForge.CommandLine

/-- The options of all commands. -/
inductive OptionName
  | verbose
  | help
  | version
  | input
  | config
  | language
  | noPrelude
  | output
  | emitRuntime
  | declaration
  | json
deriving DecidableEq, Repr, Inhabited

/-- What follows an option. -/
inductive OptionValue
  /-- nothing -/
  | absent
  /-- any text -/
  | text
  /-- a text that is not empty -/
  | path
deriving DecidableEq, Repr, Inhabited

namespace OptionName

/-- The name after two dashes. -/
def long : OptionName → String
  | verbose => "verbose"
  | help => "help"
  | version => "version"
  | input => "input"
  | config => "config"
  | language => "language"
  | noPrelude => "no-prelude"
  | output => "output"
  | emitRuntime => "emit-runtime"
  | declaration => "declaration"
  | json => "json"

/-- The letter after one dash. -/
def short? : OptionName → Option Char
  | verbose => some 'v'
  | help => some 'h'
  | version => some 'V'
  | input => some 'i'
  | config => some 'c'
  | language => some 'l'
  | output => some 'o'
  | declaration => some 'd'
  | noPrelude | emitRuntime | json => none

/-- What follows the option. -/
def value : OptionName → OptionValue
  | input | config | output => .path
  | language | declaration => .text
  | verbose | help | version | noPrelude | emitRuntime | json => .absent

/-- What the option is for. -/
def purpose : OptionName → String
  | verbose => "More logging"
  | help => "Print help"
  | version => "Print version"
  | input => "Source model directory"
  | config => "Configuration file (default: ./modelsmith.json if present)"
  | language => "Source language"
  | noPrelude => "Do not merge the bundled value-object library"
  | output => "Output directory"
  | emitRuntime => "Also write the Kotlin runtime library"
  | declaration => "Only this declaration (qualified name of the annotated type)"
  | json => "Print the analyzed models as JSON"

end OptionName

/-- The commands. -/
inductive CommandName
  | generate
  | check
  | inspect
  | runtime
deriving DecidableEq, Repr, Inhabited

namespace CommandName

/-- All commands. -/
def all : List CommandName :=
  [generate, check, inspect, runtime]

/-- The word for a command. -/
def name : CommandName → String
  | generate => "generate"
  | check => "check"
  | inspect => "inspect"
  | runtime => "runtime"

/-- What the command is for. -/
def purpose : CommandName → String
  | generate => "Generate Kotlin sources"
  | check => "Analyze and validate without writing anything"
  | inspect => "Print the classified properties of each declaration"
  | runtime => "Write only the Kotlin runtime library"

/-- The options that say where the source model comes from. -/
def sourceOptions : List OptionName :=
  [.input, .config, .language, .noPrelude]

/-- The options of a command. -/
def options : CommandName → List OptionName
  | generate => sourceOptions ++ [.output, .emitRuntime, .verbose, .help]
  | check => sourceOptions ++ [.verbose, .help]
  | inspect => sourceOptions ++ [.declaration, .json, .verbose, .help]
  | runtime => [.output, .verbose, .help]

end CommandName

/-- The options before a command. -/
def globalOptions : List OptionName :=
  [.verbose, .help, .version]

/-- An option with its value, which is empty where the option has none. -/
structure Setting where
  option : OptionName
  value : String
deriving DecidableEq, Repr, Inhabited

/-- Why a command line cannot be used. -/
inductive UsageError
  | unexpectedArgument (argument : String)
  | missingValue (option : OptionName)
  | unexpectedValue (option : OptionName) (value : String)
  | repeated (option : OptionName)
  | missingCommand
deriving DecidableEq, Repr, Inhabited

/-- The wording of the error. -/
def UsageError.message : UsageError → String
  | unexpectedArgument argument => "unexpected argument '" ++ argument ++ "'"
  | missingValue option => "a value is required for '--" ++ option.long ++ "'"
  | unexpectedValue option value =>
    "unexpected value '" ++ value ++ "' for '--" ++ option.long ++ "'"
  | repeated option => "the argument '--" ++ option.long ++ "' cannot be used multiple times"
  | missingCommand => "a command is required"

/-- What a command line asks for. -/
inductive Request
  /-- the help of a command, or the general help -/
  | help (command : Option CommandName)
  | version
  | run (command : CommandName) (settings : List Setting)
deriving Repr, Inhabited

/-! ### Settings -/

/-- Whether an option is among the settings. -/
def isGiven (option : OptionName) (settings : List Setting) : Bool :=
  settings.any fun s => s.option == option

/-- The value of an option among the settings. -/
def value? (option : OptionName) (settings : List Setting) : Option String :=
  (settings.find? fun s => s.option == option).map (·.value)

/-- How often the verbosity is given. -/
def verbosity (settings : List Setting) : Nat :=
  settings.countP fun s => s.option == .verbose

/-- The settings with one more. -/
def addSetting (settings : List Setting) (s : Setting) : Except UsageError (List Setting) :=
  if s.option.value = .path ∧ s.value = "" then .error (.missingValue s.option)
  else if s.option ≠ .verbose ∧ isGiven s.option settings then .error (.repeated s.option)
  else .ok (settings ++ [s])

/-! ### Arguments -/

/-- The part of an argument that says nothing but which options are given. -/
inductive Word
  /-- an option, with the value that is attached to it -/
  | long (name : String) (attached : Option String)
  /-- the letters after a single dash -/
  | short (letters : List Char)
  /-- the end of options -/
  | dashes
  | plain (text : String)
deriving Repr

/-- The parts of a text before and after the first `=`. -/
def splitEquals (text : List Char) : String × Option String :=
  match text.dropWhile (· != '=') with
  | [] => (String.ofList text, none)
  | _ :: value => (String.ofList (text.takeWhile (· != '=')), some (String.ofList value))

/-- The kind of an argument. -/
def Word.of (argument : String) : Word :=
  match argument.toList with
  | ['-', '-'] => dashes
  | '-' :: '-' :: text =>
    let (name, attached) := splitEquals text
    long name attached
  | '-' :: letter :: letters => short (letter :: letters)
  | _ => plain argument

/-- The value that stands in the next argument, and the arguments after it. -/
def takeValue (option : OptionName) : List String → Except UsageError (String × List String)
  | [] => .error (.missingValue option)
  | argument :: rest =>
    match Word.of argument with
    | .plain text => .ok (text, rest)
    | _ => .error (.missingValue option)

theorem length_of_takeValue {option : OptionName} {arguments : List String}
    {taken : String × List String} (h : takeValue option arguments = .ok taken) :
    taken.2.length < arguments.length := by
  unfold takeValue at h
  split at h
  · cases h
  · split at h
    · cases h; simp
    · cases h

/-- What a reading has come to: the settings so far and the arguments that are left, or an
answer that ends the reading. -/
inductive Progress
  | settings (settings : List Setting)
  | answered (request : Request)

/-- Notes an option without a value. -/
def noteFlag (help : Request) (settings : List Setting) (option : OptionName) :
    Except UsageError Progress :=
  match option with
  | .help => .ok (.answered help)
  | .version => .ok (.answered .version)
  | _ => (addSetting settings ⟨option, ""⟩).map .settings

/-- Reads joined short names. Returns an option whose value is still to come. -/
def readLetters (options : List OptionName) (help : Request) (settings : List Setting) :
    List Char → Except UsageError (Progress × Option OptionName)
  | [] => .ok (.settings settings, none)
  | letter :: letters =>
    match options.find? fun o => o.short? == some letter with
    | none => .error (.unexpectedArgument (String.ofList ['-', letter]))
    | some option =>
      if option.value = .absent then
        match noteFlag help settings option with
        | .error e => .error e
        | .ok (.answered request) => .ok (.answered request, none)
        | .ok (.settings settings) => readLetters options help settings letters
      else
        match letters with
        | [] => .ok (.settings settings, some option)
        | '=' :: value => attached option value
        | value => attached option value
where
  attached (option : OptionName) (value : List Char) :
      Except UsageError (Progress × Option OptionName) :=
    (addSetting settings ⟨option, String.ofList value⟩).map fun s => (.settings s, none)

/-- Reads a long name. Returns an option whose value is still to come. -/
def readLong (options : List OptionName) (help : Request) (settings : List Setting) (name : String)
    (attached : Option String) : Except UsageError (Progress × Option OptionName) :=
  match options.find? fun o => o.long == name with
  | none => .error (.unexpectedArgument ("--" ++ name))
  | some option =>
    if option.value = .absent then
      match attached with
      | some value => .error (.unexpectedValue option value)
      | none => (noteFlag help settings option).map (·, none)
    else
      match attached with
      | some value => (addSetting settings ⟨option, value⟩).map fun s => (.settings s, none)
      | none => .ok (.settings settings, some option)

/-- Reads options up to an argument that is none. Returns the settings with the arguments from
there on, after two dashes only these. -/
def readOptions (options : List OptionName) (help : Request) (settings : List Setting)
    (arguments : List String) : Except UsageError (Progress × List String) :=
  match arguments with
  | [] => .ok (.settings settings, [])
  | argument :: rest =>
    match
      (match Word.of argument with
      | .long name attached => (readLong options help settings name attached).map some
      | .short letters => (readLetters options help settings letters).map some
      | .dashes | .plain _ => .ok none) with
    | .error e => .error e
    | .ok none => .ok (.settings settings, argument :: rest)
    | .ok (some (.answered request, _)) => .ok (.answered request, rest)
    | .ok (some (.settings settings, none)) => readOptions options help settings rest
    | .ok (some (.settings settings, some option)) =>
      match h : takeValue option rest with
      | .error e => .error e
      | .ok (value, rest') =>
        have : rest'.length < rest.length := length_of_takeValue h
        match addSetting settings ⟨option, value⟩ with
        | .error e => .error e
        | .ok settings => readOptions options help settings rest'
termination_by arguments.length

/-- Reads the options of a command. Nothing else may follow. -/
def readCommand (command : CommandName) (settings : List Setting) (arguments : List String) :
    Except UsageError Request :=
  match readOptions command.options (.help (some command)) settings arguments with
  | .error e => .error e
  | .ok (.answered request, _) => .ok request
  | .ok (.settings settings, []) => .ok (.run command settings)
  | .ok (.settings settings, ["--"]) => .ok (.run command settings)
  | .ok (.settings _, "--" :: argument :: _) => .error (.unexpectedArgument argument)
  | .ok (.settings _, argument :: _) => .error (.unexpectedArgument argument)

/-- The command of a word. -/
def command? (word : String) : Option CommandName :=
  CommandName.all.find? fun c => c.name == word

/-- Reads what help is asked for after the word `help`. -/
def readHelp : List String → Except UsageError Request
  | [] => .ok (.help none)
  | word :: rest =>
    match command? word, rest with
    | some command, [] => .ok (.help (some command))
    | some _, argument :: _ => .error (.unexpectedArgument argument)
    | none, _ => .error (.unexpectedArgument word)

/-- Reads a command line. -/
def readArguments (arguments : List String) : Except UsageError Request :=
  match readOptions globalOptions (.help none) [] arguments with
  | .error e => .error e
  | .ok (.answered request, _) => .ok request
  | .ok (.settings _, []) => .error .missingCommand
  | .ok (.settings settings, word :: rest) =>
    match command? word with
    | some command => readCommand command settings rest
    | none =>
      if word = "help" then readHelp rest
      else if word = "--" ∧ rest = [] then .error .missingCommand
      else .error (.unexpectedArgument word)

/-! ### Help -/

/-- The names of an option as help shows them. -/
def optionNames (option : OptionName) : String :=
  let short := match option.short? with
    | some letter => String.ofList ['-', letter, ',', ' ']
    | none => "    "
  short ++ "--" ++ option.long ++
    (if option.value = .absent then "" else " <" ++ option.long.toUpper ++ ">")

/-- Two columns. -/
def columns (rows : List (String × String)) : List String :=
  let width := (rows.map fun r => r.1.length).foldl max 0
  rows.map fun (left, right) =>
    "  " ++ left ++ String.ofList (List.replicate (width - left.length + 2) ' ') ++ right

/-- The help for options. -/
def optionLines (options : List OptionName) : List String :=
  "Options:" :: columns (options.map fun o => (optionNames o, o.purpose))

/-- The help of a command, or the general help. -/
def helpLines : Option CommandName → List String
  | some command =>
    [command.purpose, "", "Usage: modelsmith " ++ command.name ++ " [OPTIONS]", ""] ++
      optionLines command.options
  | none =>
    ["modelsmith - generates validated Kotlin models from annotated templates", "",
      "Usage: modelsmith [OPTIONS] <COMMAND>", "", "Commands:"] ++
      columns (CommandName.all.map fun c => (c.name, c.purpose)) ++ [""] ++
      optionLines globalOptions

end ModelForge.CommandLine
