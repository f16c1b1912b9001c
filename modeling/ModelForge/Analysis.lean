/-
Analysis of declarations.

A class is a target if it carries the marker of a model template or of a validatable class.
`Context.analyze` turns a target into a `Model`: it decodes the marker, checks that the class
has the shape that the marker asks for, collects the validation templates, classifies the
declared properties in the scope they are written in, and adds the composed fields.

An `Analysis` may end in a problem; the cache and the warnings up to there remain.

* `Context.targets` — the targets in load order;
* `Model.check` — what a model must satisfy before code is generated for it.
-/
import ModelForge.Analysis.Classification
import ModelForge.Analysis.Composition
import ModelForge.Analysis.Inheritance
import ModelForge.Model

namespace ModelForge

/-- What a run has gathered so far. -/
structure Progress where
  cache : ResolutionCache := {}
  /-- the warnings, the last one first -/
  reversedWarnings : List Warning := []

/-- The warnings in the order in which they arose. -/
def Progress.warnings (p : Progress) : List Warning :=
  p.reversedWarnings.reverse

/-- A step of a run, which may end in a problem. -/
abbrev Analysis := ExceptT Problem (StateM Progress)

namespace Analysis

/-- Reports a warning. -/
def warn (w : Warning) : Analysis Unit :=
  modify fun p => { p with reversedWarnings := w :: p.reversedWarnings }

/-- Reports warnings in order. -/
def warnAll (ws : List Warning) : Analysis Unit :=
  ws.forM warn

/-- A step that uses the cache only. -/
def resolve {α : Type} (r : Resolution α) : Analysis α :=
  ExceptT.mk do
    let p ← get
    let (result, cache) := r.run p.cache
    set { p with cache := cache }
    return result

/-- A step that uses nothing. -/
def of {α : Type} : Except Problem α → Analysis α
  | .ok a => pure a
  | .error p => throw p

end Analysis

/-- The marker by which a class is a target. -/
inductive TargetMark
  | template (use : Annotation)
  | validatable

namespace ClassDecl

/-- The marker by which a class is a target, if it is one. A template's marker comes first. -/
def targetMark? (c : ClassDecl) (m : Markers) : Option TargetMark :=
  match c.annotated? m.modelTemplate with
  | some a => some (.template a)
  | none => (c.annotated? m.validatable).map fun _ => .validatable

/-- The marker of a validation template that a class carries, if it is one. -/
def validationMark? (c : ClassDecl) (m : Markers) : Option Annotation :=
  c.annotations.find? fun a => m.isValidationTemplate a.type

end ClassDecl

/-- A class that a model is made for, with the marker that says so. -/
structure Target where
  decl : ClassDecl
  mark : TargetMark

/-- The class as a target, if it is one. -/
def Target.of? (m : Markers) (c : ClassDecl) : Option Target :=
  (c.targetMark? m).map fun mark => ⟨c, mark⟩

namespace Markers

/-- The companions that the marker of a validation template names. -/
def scopeOf (m : Markers) (mark : String) : TemplateScope :=
  if mark = m.modelValidationTemplate then .model
  else if mark = m.paramsValidationTemplate then .params
  else .both

end Markers

namespace Context

/-- The targets in load order. -/
def targets (ctx : Context) : List Target :=
  ctx.index.classes.filterMap (Target.of? ctx.markers)

/-! ### Validation templates -/

/-- The validation template that a nested class declares. -/
def templateOf (ctx : Context) (nested : ClassDecl) (mark : Annotation) :
    Except Problem ValidationTemplate := do
  return {
    declaration := nested.qualifiedName
    function := ← mark.identifier "name"
    scope := ctx.markers.scopeOf mark.type
    prevalidated := nested.properties.map (·.name) }

/-- The validation templates among the classes nested in a class. -/
def collectTemplates (ctx : Context) : List ClassDecl → Analysis (List ValidationTemplate)
  | [] => return []
  | c :: cs =>
    match c.validationMark? ctx.markers with
    | none => collectTemplates ctx cs
    | some mark => do
      if c.kind ≠ .interface ∨ c.isPrivate = false then
        Analysis.warn (.openTemplate c.qualifiedName)
      let template ← Analysis.of (ctx.templateOf c mark)
      return template :: (← collectTemplates ctx cs)

/-! ### Properties -/

/-- A declared property of a class, classified in the scope it is written in. -/
def classifyDeclared (ctx : Context) (c : ClassDecl) (p : OwnedProperty) : Resolution Property := do
  let kind ← ctx.classify (some p.owner.scope) p.property.type
  return {
    name := p.property.name
    kind := kind
    external := p.property.isAnnotated ctx.markers.external
    origin :=
      if p.owner.qualifiedName = c.qualifiedName then .declared
      else .inherited p.owner.qualifiedName
    location := p.property.location }

/-- The declared properties of a class, classified. -/
def classifyAll (ctx : Context) (c : ClassDecl) : List OwnedProperty → Resolution (List Property)
  | [] => return []
  | p :: ps => do
    let property ← ctx.classifyDeclared c p
    return property :: (← classifyAll ctx c ps)

/-- The declared properties of a class, of which there must be one. -/
def buildDeclared (ctx : Context) (c : ClassDecl) : Resolution (List Property) :=
  let declared := ctx.declaredProperties c
  if declared.isEmpty then throw (.noProperties c.qualifiedName)
  else ctx.classifyAll c declared

/-- The properties with the composed fields added, none of which may have the name of a
property that is there. -/
def addComposed (ctx : Context) (c : ClassDecl) :
    List Property → List ComposedField → Resolution (List Property)
  | properties, [] => return properties
  | properties, f :: fields => do
    if properties.any fun p => p.name == f.field.name then
      throw (.duplicateField c.qualifiedName f.field.name)
    let kind ← ctx.classify none f.field.type
    let property : Property := {
      name := f.field.name
      kind := kind
      external := f.field.ignore
      origin := .composed f.root
      location := c.location }
    addComposed ctx c (properties ++ [property]) fields

/-- The properties of a template: the declared ones, then the composed fields. -/
def buildTemplate (ctx : Context) (c : ClassDecl) : Analysis (List Property) := do
  let declared ← Analysis.resolve (ctx.buildDeclared c)
  Analysis.warnAll (ctx.compositionWarnings c.annotations)
  let fields ← Analysis.of (ctx.expandComposition c.qualifiedName c.annotations)
  Analysis.resolve (ctx.addComposed c declared fields)

/-! ### Targets -/

/-- The model of an interface that is marked as a template. -/
def analyzeTemplate (ctx : Context) (c : ClassDecl) (mark : Annotation) : Analysis Model := do
  let base ← Analysis.of (mark.identifier "name")
  if c.kind ≠ .interface then
    throw (.notAnInterface c.qualifiedName ctx.markers.modelTemplate)
  let templates ← ctx.collectTemplates c.nested
  let properties ← ctx.buildTemplate c
  return {
    declaration := c.qualifiedName
    names := .template c.package base
    target := .template
    properties := properties
    templates := templates
    location := c.location }

/-- The model of a data class that is marked as validatable. -/
def analyzeValidatable (ctx : Context) (c : ClassDecl) : Analysis Model := do
  if c.kind ≠ .data then
    throw (.notADataClass c.qualifiedName ctx.markers.validatable)
  match c.companion with
  | none => throw (.missingCompanion c.qualifiedName)
  | some companion =>
    let properties ← Analysis.resolve (ctx.buildDeclared c)
    return {
      declaration := c.qualifiedName
      names := .validatable (.ofClass c)
      target := .validatable companion.name
      properties := properties
      templates := []
      location := c.location }

end Context

namespace Model

/-- The first name that a list repeats. -/
def firstRepeated (seen : List String) : List String → Option String
  | [] => none
  | n :: ns => if n ∈ seen then some n else firstRepeated (n :: seen) ns

/-- Checks the templates of a model one by one: none may be called `of` or like one before,
and properties that the model does not have are reported. -/
def checkTemplates (m : Model) (functions : List String) : List ValidationTemplate → Analysis Unit
  | [] => return
  | t :: ts => do
    if t.function = "of" ∨ t.function ∈ functions then
      throw (.generation (.reusedFunction t.declaration m.declaration t.function))
    Analysis.warnAll
      ((t.prevalidated.filter fun name => !(m.properties.any fun p => p.name == name)).map
        (.unknownProperty t.declaration))
    checkTemplates m (t.function :: functions) ts

/-- Checks a model before code is generated for it: no two properties have one name, and the
templates' factories have names of their own. -/
def check (m : Model) : Analysis Unit := do
  match firstRepeated [] (m.properties.map (·.name)) with
  | some name => throw (.duplicateField m.declaration name)
  | none => m.checkTemplates [] m.templates

end Model

namespace Context

/-- The model of a target, before it is checked. -/
def modelOf (ctx : Context) : Target → Analysis Model
  | ⟨c, .template mark⟩ => ctx.analyzeTemplate c mark
  | ⟨c, .validatable⟩ => ctx.analyzeValidatable c

/-- The checked model of a target. -/
def analyze (ctx : Context) (target : Target) : Analysis Model := do
  let model ← ctx.modelOf target
  model.check
  return model

end Context

end ModelForge
