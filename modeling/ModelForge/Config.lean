/-
Configuration.

`Markers` are the qualified names of the annotations, interfaces and containers that are
treated specially; `Config` says where declarations are read and generated files are
written, and what else goes into a run. Both have defaults for all their fields and are
written as records.

`Config.resolveAgainst` puts the directory of the configuration file in front of relative
directories.
-/
import ModelForge.Json.Decode
import ModelForge.Path

namespace ModelForge

open Json (Decoded field)

/-- The names of what is treated specially. -/
structure Markers where
  modelTemplate : String := "modelsmith.annotation.ModelTemplate"
  validatable : String := "modelsmith.annotation.Validatable"
  external : String := "modelsmith.annotation.External"
  addField : String := "modelsmith.annotation.AddField"
  valueObject : String := "modelsmith.core.ValueObject"
  valueValidator : String := "modelsmith.core.ValueValidator"
  validationTemplate : String := "modelsmith.annotation.ValidationTemplate"
  modelValidationTemplate : String := "modelsmith.annotation.ModelValidationTemplate"
  paramsValidationTemplate : String := "modelsmith.annotation.ParamsValidationTemplate"
  option : String := "arrow.core.Option"
  list : String := "kotlin.collections.List"
  nonEmptyList : String := "arrow.core.NonEmptyList"
  /-- other names of the non-empty list -/
  nonEmptyListAliases : List String := ["arrow.core.Nel"]
  /-- annotations that composition passes over -/
  ignoredAnnotations : List String := ["kotlin.Metadata", "kotlin.annotation.Retention",
    "kotlin.annotation.Target", "kotlin.annotation.Repeatable",
    "kotlin.annotation.MustBeDocumented"]
deriving DecidableEq, Repr, Inhabited

namespace Markers

/-- Whether composition passes over the annotations of a class. -/
def isIgnored (m : Markers) (name : String) : Bool :=
  m.ignoredAnnotations.contains name

/-- Whether a name is one of the non-empty list. -/
def isNonEmptyList (m : Markers) (name : String) : Bool :=
  name == m.nonEmptyList || m.nonEmptyListAliases.contains name

/-- Whether a name is one of the three markers of validation templates. -/
def isValidationTemplate (m : Markers) (name : String) : Bool :=
  name == m.validationTemplate || name == m.modelValidationTemplate ||
    name == m.paramsValidationTemplate

/-- The fields of the markers that have been met. -/
structure Fields where
  modelTemplate : Option String := none
  validatable : Option String := none
  external : Option String := none
  addField : Option String := none
  valueObject : Option String := none
  valueValidator : Option String := none
  validationTemplate : Option String := none
  modelValidationTemplate : Option String := none
  paramsValidationTemplate : Option String := none
  option : Option String := none
  list : Option String := none
  nonEmptyList : Option String := none
  nonEmptyListAliases : Option (List String) := none
  ignoredAnnotations : Option (List String) := none

/-- The fields with one more. -/
def Fields.set (f : Fields) (name : String) (value : Json) : Decoded Fields :=
  let text (given : Option String) := field name given Json.toText value
  let texts (given : Option (List String)) := field name given (Json.toList Json.toText) value
  match name with
  | "modelTemplate" => do return { f with modelTemplate := ← text f.modelTemplate }
  | "validatable" => do return { f with validatable := ← text f.validatable }
  | "external" => do return { f with external := ← text f.external }
  | "addField" => do return { f with addField := ← text f.addField }
  | "valueObject" => do return { f with valueObject := ← text f.valueObject }
  | "valueValidator" => do return { f with valueValidator := ← text f.valueValidator }
  | "validationTemplate" => do return { f with validationTemplate := ← text f.validationTemplate }
  | "modelValidationTemplate" => do
    return { f with modelValidationTemplate := ← text f.modelValidationTemplate }
  | "paramsValidationTemplate" => do
    return { f with paramsValidationTemplate := ← text f.paramsValidationTemplate }
  | "option" => do return { f with option := ← text f.option }
  | "list" => do return { f with list := ← text f.list }
  | "nonEmptyList" => do return { f with nonEmptyList := ← text f.nonEmptyList }
  | "nonEmptyListAliases" => do
    return { f with nonEmptyListAliases := ← texts f.nonEmptyListAliases }
  | "ignoredAnnotations" => do return { f with ignoredAnnotations := ← texts f.ignoredAnnotations }
  | _ => .ok f

/-- The markers that the fields make, with defaults for what is missing. -/
def Fields.complete (f : Fields) : Decoded Markers :=
  let d : Markers := {}
  .ok {
    modelTemplate := f.modelTemplate.getD d.modelTemplate
    validatable := f.validatable.getD d.validatable
    external := f.external.getD d.external
    addField := f.addField.getD d.addField
    valueObject := f.valueObject.getD d.valueObject
    valueValidator := f.valueValidator.getD d.valueValidator
    validationTemplate := f.validationTemplate.getD d.validationTemplate
    modelValidationTemplate := f.modelValidationTemplate.getD d.modelValidationTemplate
    paramsValidationTemplate := f.paramsValidationTemplate.getD d.paramsValidationTemplate
    option := f.option.getD d.option
    list := f.list.getD d.list
    nonEmptyList := f.nonEmptyList.getD d.nonEmptyList
    nonEmptyListAliases := f.nonEmptyListAliases.getD d.nonEmptyListAliases
    ignoredAnnotations := f.ignoredAnnotations.getD d.ignoredAnnotations }

/-- Decodes the markers. -/
def ofJson : Json → Decoded Markers :=
  Json.toRecord
    ["modelTemplate", "validatable", "external", "addField", "valueObject", "valueValidator",
      "validationTemplate", "modelValidationTemplate", "paramsValidationTemplate", "option", "list",
      "nonEmptyList", "nonEmptyListAliases", "ignoredAnnotations"]
    {} Fields.set Fields.complete

/-- Writes the markers. -/
def toJson (m : Markers) : Json :=
  .object [("modelTemplate", .string m.modelTemplate), ("validatable", .string m.validatable),
    ("external", .string m.external), ("addField", .string m.addField),
    ("valueObject", .string m.valueObject), ("valueValidator", .string m.valueValidator),
    ("validationTemplate", .string m.validationTemplate),
    ("modelValidationTemplate", .string m.modelValidationTemplate),
    ("paramsValidationTemplate", .string m.paramsValidationTemplate),
    ("option", .string m.option), ("list", .string m.list),
    ("nonEmptyList", .string m.nonEmptyList),
    ("nonEmptyListAliases", .list .string m.nonEmptyListAliases),
    ("ignoredAnnotations", .list .string m.ignoredAnnotations)]

end Markers

/-- What a run reads, does and writes. -/
structure Config where
  inputDir : String := "model"
  outDir : String := "build/generated/modelsmith"
  language : String := "json"
  /-- whether the bundled library is loaded before the input directory -/
  includePrelude : Bool := true
  /-- whether the runtime library is written along with the generated files -/
  emitRuntime : Bool := false
  markers : Markers := {}
deriving DecidableEq, Repr, Inhabited

namespace Config

/-- The name of the configuration file. It is no source file wherever it lies. -/
def fileName : String := "modelsmith.json"

/-- The fields of a configuration that have been met. -/
structure Fields where
  inputDir : Option String := none
  outDir : Option String := none
  language : Option String := none
  includePrelude : Option Bool := none
  emitRuntime : Option Bool := none
  markers : Option Markers := none

/-- The fields with one more. -/
def Fields.set (f : Fields) (name : String) (value : Json) : Decoded Fields :=
  match name with
  | "inputDir" => do return { f with inputDir := ← field name f.inputDir Json.toText value }
  | "outDir" => do return { f with outDir := ← field name f.outDir Json.toText value }
  | "language" => do return { f with language := ← field name f.language Json.toText value }
  | "includePrelude" => do
    return { f with includePrelude := ← field name f.includePrelude Json.toBool value }
  | "emitRuntime" => do
    return { f with emitRuntime := ← field name f.emitRuntime Json.toBool value }
  | "markers" => do return { f with markers := ← field name f.markers Markers.ofJson value }
  | _ => .ok f

/-- The configuration that the fields make, with what is missing taken from `defaults`. -/
def Fields.complete (defaults : Config) (f : Fields) : Decoded Config :=
  .ok {
    inputDir := f.inputDir.getD defaults.inputDir
    outDir := f.outDir.getD defaults.outDir
    language := f.language.getD defaults.language
    includePrelude := f.includePrelude.getD defaults.includePrelude
    emitRuntime := f.emitRuntime.getD defaults.emitRuntime
    markers := f.markers.getD defaults.markers }

/-- Decodes a configuration, with what is missing taken from `defaults`. -/
def ofJson (defaults : Config) : Json → Decoded Config :=
  Json.toRecord
    ["inputDir", "outDir", "language", "includePrelude", "emitRuntime", "markers"]
    {} Fields.set (Fields.complete defaults)

/-- Writes a configuration. -/
def toJson (c : Config) : Json :=
  .object [("inputDir", .string c.inputDir), ("outDir", .string c.outDir),
    ("language", .string c.language), ("includePrelude", .bool c.includePrelude),
    ("emitRuntime", .bool c.emitRuntime), ("markers", c.markers.toJson)]

/-- The configuration with relative directories taken from `base`. -/
def resolveAgainst (c : Config) (base : String) : Config :=
  { c with
    inputDir := Path.join base c.inputDir
    outDir := Path.join base c.outDir }

/-- Reads the text of the configuration file at `path`. Relative directories are those next
to the file. -/
def decode (path text : String) : Except DocumentError Config :=
  match Json.decodeText (ofJson {}) text with
  | .ok c =>
    match Path.parent? path with
    | some base => .ok (c.resolveAgainst base)
    | none => .ok c
  | .error e => .error e

end Config

end ModelForge
