/-
The files that are generated for a model.

For a template these are the union of its field failures, the model, the params and the
builder; for a validatable class the union, an extension `of` of its companion and, if the
class has options, an extension `only`.

* `Model.failureUnion`, `Model.modelClass`, `Model.paramsClass`, `Model.builder?`,
  `Model.companionOf` and `Model.companionOnly?` are what the files declare;
* `Model.generate` lists the files.
-/
import ModelForge.Generation.Factory
import ModelForge.Kotlin.Printer
import ModelForge.Model
import ModelForge.Problem

namespace ModelForge

open Kotlin

/-- A file with its text. -/
structure GeneratedFile where
  package : String
  /-- the name without extension -/
  name : String
  content : String
deriving DecidableEq, Repr, Inhabited

/-- The file with its text written out. -/
def Kotlin.File.generated (f : Kotlin.File) : GeneratedFile :=
  ⟨f.package, f.name, f.text⟩

namespace Model

/-! ### Field failures -/

/-- The union of the failures of required fields, for a model that has params. -/
def required? (m : Model) : Option TypeName :=
  if m.names.hasParams then some m.names.requiredFieldFailure else none

/-- The variant of a property, if it can fail. An external property's is no required one. -/
def variantOf (m : Model) (p : Property) : Option (Variant TypeName TypeName) :=
  (Generation.failurePayload p.kind).map fun payload =>
    ⟨p.failureName, payload,
      if p.external then m.names.fieldFailure else m.required?.getD m.names.fieldFailure⟩

/-- The union of the field failures. -/
def failureUnion (m : Model) : FailureUnion TypeName TypeName :=
  ⟨m.names.fieldFailure, m.properties.filterMap m.variantOf, m.required?⟩

/-! ### Model and params -/

/-- What the factories of the model or of the params make. -/
def factoryTarget (m : Model) (mode : Generation.Mode) : Generation.FactoryTarget :=
  match mode with
  | .model => ⟨none, m.names.model, m.names.fieldFailure, m.names.fieldFailure, .model⟩
  | .params => ⟨none, m.names.params, m.names.fieldFailure, m.names.requiredFieldFailure, .params⟩

/-- The properties of the model or of the params. -/
def propertiesIn (m : Model) : Generation.Mode → List Property
  | .model => m.properties
  | .params => m.paramsProperties

/-- The templates whose factories the companion receives. -/
def templatesIn (m : Model) (mode : Generation.Mode) : List ValidationTemplate :=
  m.templates.filter fun t =>
    match mode with
    | .model => t.scope.includesModel
    | .params => t.scope.includesParams

/-- The model or the params, with the factory `of` and those of the templates. -/
def dataClass (m : Model) (mode : Generation.Mode) : DataClass TypeName TypeName :=
  let target := m.factoryTarget mode
  let properties := m.propertiesIn mode
  { name := target.constructed
    fields := properties.map fun p => ⟨p.name, Generation.fieldType mode p.kind⟩
    factories := Generation.factory target "of" properties ::
      (m.templatesIn mode).map fun t => Generation.factory target t.function (t.apply properties) }

/-! ### Builder -/

/-- The option that a step of the builder looks into: a staged builder is built first. -/
def stepSource (p : Property) : Expr TypeName :=
  match p.kind with
  | .model nested =>
    if nested.names.hasParams then
      if nested.nullable then
        .flatMap (.parameter p.name)
          (.orElse (.build .it true) (.wrap Generation.someClass .null))
      else .flatMap (.parameter p.name) (.build .it false)
    else .parameter p.name
  | _ => .parameter p.name

/-- The steps of the builder: the last one maps, and the blocks of the others give options. -/
def buildSteps : List Property → List (BuildStep TypeName)
  | [] => []
  | p :: ps => ⟨p.name, if ps.isEmpty then .map else .flatMap, stepSource p⟩ :: buildSteps ps

/-- What the builder's function returns. -/
def buildBody (m : Model) : BuildBody TypeName :=
  if m.paramsProperties.isEmpty then .present Generation.someClass
  else .chain (buildSteps m.paramsProperties)
    (m.paramsProperties.map fun p => ⟨p.name, .parameter p.name⟩)

/-- The builder, for a model that has params. -/
def builder? (m : Model) : Option (Builder TypeName TypeName) :=
  m.names.builder?.map fun name =>
    { name := name
      staged := m.paramsProperties.map fun p =>
        ⟨p.name, Generation.option (Generation.builderType p.kind)⟩
      params := m.names.params
      result := Generation.option m.names.params
      body := m.buildBody
      absent := if m.paramsProperties.isEmpty then none else some Generation.noneObject }

/-! ### Extensions of a companion -/

/-- The extension `of` of a validatable class's companion. -/
def companionOf (m : Model) (companion : String) : Factory TypeName TypeName :=
  Generation.factory
    ⟨some ⟨m.names.model, companion⟩, m.names.model, m.names.fieldFailure, m.names.fieldFailure,
      .model⟩ "of" m.properties

/-- The extension `only` of a validatable class's companion, if a property is an option. -/
def companionOnly? (m : Model) (companion option : String) :
    Option (OnlyExtension TypeName TypeName) :=
  if m.properties.any fun p => p.kind.isOption option then
    some {
      receiver := ⟨m.names.model, companion⟩
      absent := Generation.noneObject
      parameters := m.properties.map fun p =>
        ⟨p.name, Generation.fieldType .model p.kind, p.kind.isOption option⟩ }
  else none

/-! ### Files -/

/-- A file in the model's package. -/
def file (m : Model) (name : String) (content : Content TypeName TypeName) : Kotlin.File :=
  ⟨m.names.package, name, content⟩

/-- The files of a model, where `option` is the name of the option class. -/
def files (m : Model) (option : String) : Except Problem (List Kotlin.File) :=
  let union := m.file m.names.fieldFailure.simpleName (.failureUnion m.failureUnion)
  match m.target with
  | .template =>
    match m.builder? with
    | none => .error (.generation (.noBuilder m.declaration))
    | some builder =>
      .ok [union,
        m.file m.names.model.simpleName (.dataClass (m.dataClass .model)),
        m.file m.names.params.simpleName (.dataClass (m.dataClass .params)),
        m.file builder.name.simpleName (.builder builder)]
  | .validatable companion =>
    .ok (union ::
      m.file (m.names.base ++ "CompanionOf") (.factory (m.companionOf companion)) ::
      match m.companionOnly? companion option with
      | some only => [m.file (m.names.base ++ "CompanionOnly") (.only only)]
      | none => [])

/-- The generated files of a model, where `option` is the name of the option class. -/
def generate (m : Model) (option : String) : Except Problem (List GeneratedFile) :=
  (m.files option).map (·.map Kotlin.File.generated)

end Model

end ModelForge
