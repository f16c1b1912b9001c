/-
Classification of types.

`Context.classify` says how a type takes part in validation:

1. a class that a model is generated for is a nested model, and an option, a list or a
   non-empty list of one is a container of it;
2. a class that directly implements the interface of value objects is a validated value, and
   an option of one likewise;
3. an alias is expanded and its target classified; the result keeps the alias's name where
   the kind of a property shows a name at all;
4. everything else is standard, with its arguments classified.

Aliases are expanded at most `maxAliasDepth` times one inside the other; `classifyAt` counts
the expansions that are left.
-/
import ModelForge.Analysis.Arguments
import ModelForge.Analysis.Failure
import ModelForge.Property

namespace ModelForge

/-- The containers in which a model or a value is recognised. -/
inductive Container
  | option
  | list
  | nonEmptyList
deriving DecidableEq, Repr

/-- How many aliases may be expanded one inside the other. -/
def maxAliasDepth : Nat := 32

/-- What the parameters of an alias stand for in a reference to it. -/
def AliasDecl.bindings (a : AliasDecl) (reference : TypeRef) : TypeRef.Bindings :=
  TypeRef.Bindings.ofList
    (a.typeParameters.zipIdx.filterMap fun (parameter, i) =>
      (reference.argument? i).map (parameter, ·))

/-- What a reference to an alias stands for. -/
def AliasDecl.expand (a : AliasDecl) (reference : TypeRef) : TypeRef :=
  (a.target.substitute (a.bindings reference)).orNullable reference.nullable

namespace Markers

/-- The container that a name stands for. -/
def container? (m : Markers) (name : String) : Option Container :=
  if name = m.option then some .option
  else if name = m.list then some .list
  else if m.isNonEmptyList name then some .nonEmptyList
  else none

end Markers

namespace PropertyKind

/-- The kind of a container of something of the given kind, if it is one of its own. -/
def inContainer? (container : Container) (inner : PropertyKind) (nullable : Bool) :
    Option PropertyKind :=
  match container, inner with
  | .option, model m => some (optionalModel m nullable)
  | .list, model m => some (modelList m nullable)
  | .nonEmptyList, model m => some (modelNonEmptyList m nullable)
  | .option, value v => some (optionalValue v nullable)
  | _, _ => none

/-- The kind of a type with arguments of the given kinds. -/
def ofType (m : Markers) (type : TypeName) (arguments : List (Option PropertyKind)) :
    PropertyKind :=
  match m.container? type.canonicalName, arguments with
  | some container, [some inner] =>
    (inContainer? container inner type.nullable).getD (standard type arguments)
  | _, _ => standard type arguments

end PropertyKind

namespace Context

/-- The names of the model that is generated for a class. -/
def modelNamesOf (ctx : Context) (c : ClassDecl) : Except Problem (Option ModelNames) :=
  match c.annotated? ctx.markers.modelTemplate with
  | some a => do return some (.template c.package (← a.identifier "name"))
  | none =>
    match c.annotated? ctx.markers.validatable with
    | some _ => .ok (some (.validatable (.ofClass c)))
    | none => .ok none

/-- The names of the model that is generated for a class, by way of the cache. -/
def modelNames (ctx : Context) (c : ClassDecl) : Resolution (Option ModelNames) :=
  Resolution.modelNames c.qualifiedName (ctx.modelNamesOf c)

/-- The class as a validated value, if it implements the interface of value objects. -/
def validatedValue (ctx : Context) (c : ClassDecl) (nullable : Bool) :
    Resolution (Option ValidatedValue) :=
  match c.superTypes.find? fun t => t.name == ctx.markers.valueObject with
  | none => return none
  | some marker =>
    match marker.argument? 0 with
    | none => throw (.missingWrappedType c.qualifiedName ctx.markers.valueObject)
    | some wrapped => do
      let failure ← ctx.failureType c
      return some ⟨.ofClass c, (ctx.typeNameOf (some c.scope) wrapped).withNullable false, failure,
        nullable⟩

mutual

/-- The kind of a type, with `expand` for the references to aliases. -/
def classifyWith (ctx : Context) (expand : AliasDecl → TypeRef → Resolution PropertyKind)
    (scope : Option Scope) : TypeRef → Resolution PropertyKind
  | .mk name arguments nullable =>
    match ctx.index.resolve name scope with
    | .typeParameter _ | .external => do
      let kinds ← classifyArguments ctx expand scope arguments
      return .ofType ctx.markers ((TypeName.ofQualified name).withNullable nullable) kinds
    | .ofClass c => do
      match ← ctx.modelNames c with
      | some names => return .model ⟨names, nullable⟩
      | none =>
        match ← ctx.validatedValue c nullable with
        | some v => return .value v
        | none =>
          let kinds ← classifyArguments ctx expand scope arguments
          return .ofType ctx.markers ((TypeName.ofClass c).withNullable nullable) kinds
    | .ofAlias a => do
      match ← expand a (.mk name arguments nullable) with
      | .standard .. =>
        let kinds ← classifyArguments ctx expand scope arguments
        let expanded := a.expand (.mk name arguments nullable)
        return .standard ((TypeName.ofAlias a).withNullable expanded.nullable) kinds
      | .value v => return .value { v with wrapper := .ofAlias a }
      | kind => return kind

/-- The kind of an argument, `none` for a star. -/
def classifyArgument (ctx : Context) (expand : AliasDecl → TypeRef → Resolution PropertyKind)
    (scope : Option Scope) : TypeArgument → Resolution (Option PropertyKind)
  | .star => return none
  | .type _ ref => do return some (← classifyWith ctx expand scope ref)

/-- The kinds of the arguments. -/
def classifyArguments (ctx : Context) (expand : AliasDecl → TypeRef → Resolution PropertyKind)
    (scope : Option Scope) : List TypeArgument → Resolution (List (Option PropertyKind))
  | [] => return []
  | a :: as => do
    let kind ← classifyArgument ctx expand scope a
    return kind :: (← classifyArguments ctx expand scope as)

end

/-- The kind of a type, with so many expansions of aliases one inside the other. -/
def classifyAt (ctx : Context) (scope : Option Scope) : Nat → TypeRef → Resolution PropertyKind
  | 0 => ctx.classifyWith (fun _ reference => throw (.endlessAlias reference.display)) scope
  | depth + 1 =>
    ctx.classifyWith (fun a reference => classifyAt ctx scope depth (a.expand reference)) scope

/-- The kind of a type that is written in a scope, or outside of all classes. -/
def classify (ctx : Context) (scope : Option Scope) (type : TypeRef) : Resolution PropertyKind :=
  ctx.classifyAt scope maxAliasDepth type

end Context

end ModelForge
