/-
The program's commands.

`execute` is the whole program on a tree of files: it reads the arguments, carries the
command out and says what is printed, what is reported besides, how the program ends and
which files there are afterwards. Arguments that cannot be used end it with 2, all other
failures with 1.

* `generate` writes the generated files and prints what they are;
* `check` does the same without writing;
* `inspect` prints the models, as text or as JSON;
* `runtime` writes the bundled library.

The options of a command line come before the configuration file, and a configuration file
that is not named is used if it is there.
-/
import ModelForge.CommandLine.Display
import ModelForge.CommandLine.Usage
import ModelForge.Json.Printer
import ModelForge.Run

namespace ModelForge.CommandLine

/-- How a command came out. -/
structure Execution where
  exitCode : Nat
  /-- the lines of standard output -/
  output : List OutputLine
  /-- what is reported besides -/
  reported : List String
  tree : FileTree

namespace Execution

/-- The command succeeded. -/
def succeeded (t : FileTree) (output : List OutputLine) (reported : List String) : Execution :=
  ⟨0, output, reported, t⟩

/-- The command failed. -/
def failed (t : FileTree) (output : List OutputLine) (reported : List String) : Execution :=
  ⟨1, output, reported, t⟩

end Execution

/-- What keeps a command from being carried out. -/
inductive CommandError
  | problem (cause : Problem)
  | missingConfig (path : String)
  | unknownDeclaration (name : String)
  | skipped (failed declarations : Nat)
deriving Repr

/-- The wording of the error. -/
def CommandError.message : CommandError → String
  | problem cause => cause.message
  | missingConfig path => "Configuration file " ++ path ++ " does not exist"
  | unknownDeclaration name => "No annotated declaration named " ++ name
  | skipped failed declarations =>
    toString failed ++ " of " ++ toString declarations ++ " declarations failed"

/-! ### Configuration -/

/-- The path of the configuration file. -/
def configPath (settings : List Setting) : String :=
  (value? .config settings).getD Config.fileName

/-- The configuration in the file. One that is named must be there. -/
def fileConfig (t : FileTree) (settings : List Setting) : Except CommandError Config :=
  match t.config? (configPath settings) with
  | .error p => .error (.problem p)
  | .ok (some c) => .ok c
  | .ok none =>
    match value? .config settings with
    | some path => .error (.missingConfig path)
    | none => .ok {}

/-- The configuration of a command: the file, then the options. -/
def configOf (t : FileTree) (settings : List Setting) : Except CommandError Config :=
  (fileConfig t settings).map fun c => { c with
    inputDir := (value? .input settings).getD c.inputDir
    outDir := (value? .output settings).getD c.outDir
    language := (value? .language settings).getD c.language
    includePrelude := c.includePrelude && !isGiven .noPrelude settings
    emitRuntime := c.emitRuntime || isGiven .emitRuntime settings }

/-! ### Reports -/

/-- A warning as it is reported. -/
def warningLine (w : Warning) : String :=
  "WARN " ++ w.message ++
    String.join (w.details.map fun (name, value) => " " ++ name ++ "=" ++ value)

/-- An error as it is reported. -/
def errorLine (e : CommandError) : String :=
  "Error: " ++ e.message

/-- A problem with what may be done about it, as it is reported. -/
def diagnosticLines (d : Diagnostic) : List String :=
  d.problem.code :: d.display :: (d.problem.help?.map ("help: " ++ ·)).toList

/-- What is reported of a run in which targets were skipped. -/
def skippedLines (r : GenerationReport) : List String :=
  r.warnings.map warningLine ++ r.diagnostics.flatMap diagnosticLines ++
    [errorLine (.skipped r.diagnostics.length r.declarations)]

/-- A written file as it is reported. -/
def writtenLine (t : FileTree) (path : String) : String :=
  "INFO wrote file path=" ++ Path.shownFrom (absolutePath t.workDir) path

/-- The written files as they are reported, if anyone wants to know. -/
def writtenLines (t : FileTree) (settings : List Setting) (paths : List String) : List String :=
  if verbosity settings = 0 then [] else paths.map (writtenLine t)

/-! ### Commands -/

/-- Writes the generated files. -/
def generate (t : FileTree) (settings : List Setting) (c : Config) : Execution :=
  match c.generateInto t with
  | (t, .error p) => .failed t [.text header] [errorLine (.problem p)]
  | (t, .ok (report, paths)) =>
    if report.isSuccess then
      .succeeded t
        [.text header, .text (success ("Generated into " ++ c.outDir)),
          .text (summary report.declarations paths.length 0), .elapsed "Done"]
        (report.warnings.map warningLine ++ writtenLines t settings paths)
    else
      .failed t
        [.text header,
          .text (summary report.declarations paths.length report.diagnostics.length)]
        (skippedLines report)

/-- Generates files without writing them. -/
def check (t : FileTree) (c : Config) : Execution :=
  match c.generate t with
  | .error p => .failed t [] [errorLine (.problem p)]
  | .ok report =>
    if report.isSuccess then
      .succeeded t
        [.text (success "Looking good."),
          .text (summary report.declarations report.files.length 0)]
        (report.warnings.map warningLine)
    else
      .failed t
        [.text (summary report.declarations report.files.length report.diagnostics.length)]
        (skippedLines report)

/-- The part of a report that is about one declaration. -/
def onlyDeclaration (name : String) (r : AnalysisReport) : AnalysisReport :=
  { r with
    models := r.models.filter fun m => m.declaration == name
    diagnostics := r.diagnostics.filter fun d => d.declaration == name }

/-- The part of a report that is asked for. -/
def selected (settings : List Setting) (r : AnalysisReport) : Except CommandError AnalysisReport :=
  match value? .declaration settings with
  | none => .ok r
  | some name =>
    let part := onlyDeclaration name r
    if part.models.isEmpty && part.diagnostics.isEmpty then .error (.unknownDeclaration name)
    else .ok part

/-- Prints the models. -/
def inspect (t : FileTree) (settings : List Setting) (c : Config) : Execution :=
  match c.analyze t with
  | .error p => .failed t [] [errorLine (.problem p)]
  | .ok report =>
    let warnings := report.warnings.map warningLine
    match selected settings report with
    | .error e => .failed t [] (warnings ++ [errorLine e])
    | .ok part =>
      let lines :=
        if isGiven .json settings then [(Json.list Model.toJson part.models).pretty]
        else part.models.flatMap (modelLines t)
      .succeeded t (lines.map .text) (warnings ++ part.diagnostics.flatMap diagnosticLines)

/-- The directory that the bundled library is written to. -/
def runtimeDirectory (settings : List Setting) : String :=
  (value? .output settings).getD ({} : Config).outDir

/-- Writes the bundled library. -/
def runtime (t : FileTree) (settings : List Setting) : Execution :=
  let directory := runtimeDirectory settings
  match Library.writeInto t directory with
  | (t, .error p) => .failed t [] [errorLine (.problem p)]
  | (t, .ok paths) =>
    .succeeded t
      [.text (success
        ("Wrote " ++ toString paths.length ++ " runtime files to " ++ directory))]
      (writtenLines t settings paths)

/-- Carries a command out that needs a configuration. -/
def configured (t : FileTree) (settings : List Setting) (command : Config → Execution) :
    Execution :=
  match configOf t settings with
  | .error e => .failed t [] [errorLine e]
  | .ok c => command c

/-- Answers a request. -/
def answer (t : FileTree) : Request → Execution
  | .help command => .succeeded t ((helpLines command).map .text) []
  | .version => .succeeded t [.text versionLine] []
  | .run .generate settings => configured t settings (generate t settings)
  | .run .check settings => configured t settings (check t)
  | .run .inspect settings => configured t settings (inspect t settings)
  | .run .runtime settings => runtime t settings

/-- Runs the program with arguments. -/
def execute (t : FileTree) (arguments : List String) : Execution :=
  match readArguments arguments with
  | .error e => ⟨2, [], ["error: " ++ e.message], t⟩
  | .ok request => answer t request

/-! ### What a request looks at -/

/-- The directory whose files a request reads, given the configuration file. -/
def sourceDirectory? (t : FileTree) : Request → Option String
  | .help _ | .version | .run .runtime _ => none
  | .run _ settings =>
    match configOf t settings with
    | .ok c => some c.inputDir
    | .error _ => none

/-- The paths that a run writes to or links to. -/
def runPaths (t : FileTree) (command : CommandName) (c : Config) : List String :=
  match command with
  | .generate =>
    match c.generate t with
    | .ok report =>
      (c.outputFiles report.files).map (·.1) ++
        (if c.emitRuntime then (Library.filesIn c.outDir).map (·.1) else [])
    | .error _ => []
  | .inspect =>
    match c.analyze t with
    | .ok report => report.models.filterMap fun m => m.location.map (·.file)
    | .error _ => []
  | .check | .runtime => []

/-- The paths that a request writes to or links to, given the files that it reads. -/
def touchedPaths (t : FileTree) : Request → List String
  | .help _ | .version => []
  | .run .runtime settings => (Library.filesIn (runtimeDirectory settings)).map (·.1)
  | .run command settings =>
    match configOf t settings with
    | .ok c => runPaths t command c
    | .error _ => []

end ModelForge.CommandLine
