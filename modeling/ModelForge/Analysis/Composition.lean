/-
Fields that annotations add.

An annotation may carry annotations on its own class, and these may in the end add fields to
the model of a declaration. The walk over them is depth first. It passes over ignored
annotations and does not enter a class that it is inside of already.

* `compositionEvents` is what the walk meets, in order: directives that add a field, and
  returns to a class on the path;
* `expandComposition` reads the directives and keeps each field once; two directives for one
  field that do not agree are a problem;
* `compositionWarnings` is what is reported of the walk.
-/
import ModelForge.Analysis.Arguments
import ModelForge.Analysis.Context
import ModelForge.Warning

namespace ModelForge

/-- A field that is added, and the annotation of the declaration that led to it. -/
structure ComposedField where
  field : FieldDirective
  root : String
deriving DecidableEq, Repr, Inhabited

/-- What the walk over annotations meets. -/
inductive CompositionEvent
  /-- a use of the annotation that adds a field -/
  | directive (use : Annotation)
  /-- a use of an annotation whose class is on the path -/
  | cycle (repeated : String) (path : List String)
deriving Repr

namespace Context

/-- What the walk meets from an annotation on, reached by a path of annotation classes. -/
def walkComposition (ctx : Context) (path : List String) (a : Annotation) :
    List CompositionEvent :=
  if ctx.markers.isIgnored a.type then []
  else if a.type = ctx.markers.addField then [.directive a]
  else if _hp : a.type ∈ path then [.cycle a.type path]
  else
    match _hc : ctx.index.class? a.type with
    | none => []
    | some c => c.annotations.flatMap (walkComposition ctx (path ++ [a.type]))
termination_by (ctx.index.remaining path).length
decreasing_by
  exact DeclarationIndex.remaining_length_lt _hc _hp fun n => by simp [or_comm]

/-- What the walk meets from the annotations of a declaration on, each event with the
annotation that it started from. -/
def compositionEvents (ctx : Context) (annotations : List Annotation) :
    List (String × CompositionEvent) :=
  annotations.flatMap fun a => (ctx.walkComposition [] a).map (a.type, ·)

end Context

namespace Composition

/-- The fields of the directives, read in order until one cannot be read. -/
def readFields : List (String × CompositionEvent) → Except Problem (List ComposedField)
  | [] => .ok []
  | (root, .directive a) :: events => do
    let field ← FieldDirective.decode a
    return ⟨field, root⟩ :: (← readFields events)
  | (_, .cycle ..) :: events => readFields events

/-- The returns that are met before a directive that cannot be read. -/
def warnings : List (String × CompositionEvent) → List Warning
  | [] => []
  | (_, .directive a) :: events =>
    match FieldDirective.decode a with
    | .ok _ => warnings events
    | .error _ => []
  | (_, .cycle repeated path) :: events => .compositionCycle repeated path :: warnings events

/-- The fields with repeated ones left out, given those that have been kept. -/
def merge (declaration : String) (kept : List ComposedField) :
    List ComposedField → Except Problem (List ComposedField)
  | [] => .ok kept
  | f :: fields =>
    match kept.find? fun k => k.field.name == f.field.name with
    | none => merge declaration (kept ++ [f]) fields
    | some k =>
      if k.field = f.field then merge declaration kept fields
      else .error (.duplicateField declaration f.field.name)

end Composition

namespace Context

/-- The fields that the annotations of a declaration add, in the order in which they are
met. -/
def expandComposition (ctx : Context) (declaration : String) (annotations : List Annotation) :
    Except Problem (List ComposedField) := do
  Composition.merge declaration [] (← Composition.readFields (ctx.compositionEvents annotations))

/-- What is reported of the walk over the annotations of a declaration. -/
def compositionWarnings (ctx : Context) (annotations : List Annotation) : List Warning :=
  Composition.warnings (ctx.compositionEvents annotations)

end Context

end ModelForge
