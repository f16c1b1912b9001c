/-
Runs over all targets of a source model.

A run treats the targets one after another. A target that ends in a problem is left out and
reported; the others are treated all the same. Nothing is written before all targets have
been treated, and then the files go out in the order in which they were generated.

* `Context.treatAll` — what becomes of each target;
* `Config.analyze` — the models of all targets;
* `Config.generate` — the files of all targets;
* `Config.generateInto` — the same, written below the output directory.
-/
import ModelForge.Analysis
import ModelForge.Generation
import ModelForge.Library.Sources
import ModelForge.Loading

namespace ModelForge

/-- What became of a target. -/
structure Outcome (α : Type) where
  target : Target
  result : Except Problem α

namespace Outcome

variable {α : Type}

/-- What a target came to, with the name of its declaration. -/
def success? (o : Outcome α) : Option (String × α) :=
  match o.result with
  | .ok a => some (o.target.decl.qualifiedName, a)
  | .error _ => none

/-- The report of a target that was left out. -/
def diagnostic? (o : Outcome α) : Option Diagnostic :=
  match o.result with
  | .ok _ => none
  | .error p => some ⟨o.target.decl.qualifiedName, o.target.decl.location, p⟩

end Outcome

namespace Context

/-- Treats a target. A problem is reported as a warning, too. -/
def treat {α : Type} (step : Target → Analysis α) (target : Target) :
    StateM Progress (Outcome α) := do
  let result ← (step target).run
  match result with
  | .ok _ => return ⟨target, result⟩
  | .error p =>
    modify fun progress => { progress with
      reversedWarnings := .skipped target.decl.qualifiedName p :: progress.reversedWarnings }
    return ⟨target, result⟩

/-- Treats targets one after another. -/
def treatAll {α : Type} (step : Target → Analysis α) :
    List Target → StateM Progress (List (Outcome α))
  | [] => return []
  | target :: targets => do
    let outcome ← treat step target
    return outcome :: (← treatAll step targets)

/-- The files of a target. -/
def generate (ctx : Context) (target : Target) : Analysis (List GeneratedFile) := do
  let model ← ctx.analyze target
  Analysis.of (model.generate ctx.markers.option)

end Context

/-- The models of a run. -/
structure AnalysisReport where
  models : List Model
  diagnostics : List Diagnostic
  warnings : List Warning

/-- The files of a run. -/
structure GenerationReport where
  /-- the number of targets -/
  declarations : Nat
  /-- the targets whose files were generated -/
  generated : List String
  files : List GeneratedFile
  diagnostics : List Diagnostic
  warnings : List Warning

/-- Whether files were generated for all targets. -/
def GenerationReport.isSuccess (r : GenerationReport) : Bool :=
  r.diagnostics.isEmpty

namespace Context

/-- The models of all targets. -/
def analysisReport (ctx : Context) : AnalysisReport :=
  let (outcomes, progress) := (treatAll ctx.analyze ctx.targets).run {}
  { models := outcomes.filterMap fun o => o.success?.map (·.2)
    diagnostics := outcomes.filterMap Outcome.diagnostic?
    warnings := progress.warnings }

/-- The files of all targets. -/
def generationReport (ctx : Context) : GenerationReport :=
  let (outcomes, progress) := (treatAll ctx.generate ctx.targets).run {}
  let successes := outcomes.filterMap Outcome.success?
  { declarations := outcomes.length
    generated := successes.map (·.1)
    files := successes.flatMap (·.2)
    diagnostics := outcomes.filterMap Outcome.diagnostic?
    warnings := progress.warnings }

end Context

/-! ### Files -/

/-- The path of a generated file: a directory for each segment of the package, and the file in
the last one. -/
def GeneratedFile.path (f : GeneratedFile) : String :=
  Path.join (((dotted f.package).filter (· ≠ "")).foldl Path.join "") (f.name ++ ".kt")

namespace Library

/-- The files of the bundled library below a directory. -/
def filesIn (directory : String) : List (String × String) :=
  sources.map fun (path, text) => (Path.join directory path, text)

/-- Writes the bundled library below a directory. -/
def writeInto (t : FileTree) (directory : String) : FileTree × Except Problem (List String) :=
  let files := filesIn directory
  match t.writeAll files with
  | (t, .ok ()) => (t, .ok (files.map (·.1)))
  | (t, .error refused) => (t, .error (.access refused .refused))

end Library

namespace Config

/-- The models of a configured run. -/
def analyze (c : Config) (t : FileTree) : Except Problem AnalysisReport := do
  let index ← c.load t
  return Context.analysisReport ⟨index, c.markers⟩

/-- The files of a configured run, of which none is written. -/
def generate (c : Config) (t : FileTree) : Except Problem GenerationReport := do
  let index ← c.load t
  return Context.generationReport ⟨index, c.markers⟩

/-- Generated files below the output directory. -/
def outputFiles (c : Config) (generated : List GeneratedFile) : List (String × String) :=
  generated.map fun f => (Path.join c.outDir f.path, f.content)

/-- Writes generated files below the output directory, and the bundled library if it is asked
for. Returns the paths of all files written. -/
def emit (c : Config) (t : FileTree) (generated : List GeneratedFile) :
    FileTree × Except Problem (List String) :=
  let files := c.outputFiles generated
  match t.writeAll files with
  | (t, .error refused) => (t, .error (.access refused .refused))
  | (t, .ok ()) =>
    if c.emitRuntime then
      match Library.writeInto t c.outDir with
      | (t, .ok paths) => (t, .ok (files.map (·.1) ++ paths))
      | (t, .error p) => (t, .error p)
    else (t, .ok (files.map (·.1)))

/-- Runs the generation and writes its files. Returns the report and the paths of all files
written. -/
def generateInto (c : Config) (t : FileTree) :
    FileTree × Except Problem (GenerationReport × List String) :=
  match c.generate t with
  | .error p => (t, .error p)
  | .ok report =>
    match c.emit t report.files with
    | (t, .ok paths) => (t, .ok (report, paths))
    | (t, .error p) => (t, .error p)

end Config

end ModelForge
