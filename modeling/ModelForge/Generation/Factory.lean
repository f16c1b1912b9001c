/-
Factory functions.

A factory takes one parameter for each property and validates all of them before it decides:
if every result is a success, the class is constructed from the parameters and the contents
of the results; otherwise each failure is put into its variant and they are returned
together.

* `validation` is how a property is validated: not at all, by a parameter that is a result
  already, or by a local;
* `factory` puts the function together.
-/
import ModelForge.Generation.Types
import ModelForge.Kotlin.Code

namespace ModelForge.Generation

open Kotlin

/-- Where the validation result of a property is found. -/
inductive Validation
  /-- the property is passed on as it is -/
  | none
  /-- the parameter is a result already -/
  | parameter
  | byLocal (l : Local TypeName TypeName)

/-- The success that holds null. -/
def rightNull : Expr TypeName :=
  .right eitherClass .null

/-- An expression with null in the place of absence, where it may be absent. -/
def withFallback (nullable : Bool) (e : Expr TypeName) : Expr TypeName :=
  if nullable then .orElse e rightNull else e

/-- What is made of the content of an option of a nested model's result: a success of the
option, with null in it if the content is null. -/
def presentModel (nullable : Bool) : Expr TypeName :=
  let mapped := Expr.map .it nullable (some "model") (.wrap someClass (.held "model"))
  if nullable then .orElse mapped (.right eitherClass (.wrap someClass .null)) else mapped

/-- The elements of a list of results, with a success that holds null for every null. -/
def presentElements (name : String) (nullable safe : Bool) : Expr TypeName :=
  if nullable then .map (.parameter name) safe Option.none (.orElse .it rightNull)
  else .parameter name

/-- The validation of the elements of a list. -/
def validateElements (name : String) (m : NestedModel) (nullable : Bool) : Expr TypeName :=
  withFallback nullable (.validate (presentElements name m.nullable nullable) nullable)

/-- The expression that validates a property, if it needs a local. -/
def validationExpr (name : String) : PropertyKind → Option (Expr TypeName)
  | .standard .. => Option.none
  | .value v => some (.make v.wrapper v.nullable (.parameter name))
  | .optionalValue v nullable =>
    if nullable then
      some (.orElse (.letIt (.parameter name) (.make v.wrapper v.nullable .it)) rightNull)
    else some (.make v.wrapper v.nullable (.parameter name))
  | .model m => if m.nullable then some (.orElse (.parameter name) rightNull) else Option.none
  | .optionalModel m nullable =>
    some (withFallback nullable
      (.fold (.parameter name) nullable (.right eitherClass (.object noneObject))
        (presentModel m.nullable)))
  | .modelList m nullable => some (validateElements name m nullable)
  | .modelNonEmptyList m nullable => some (validateElements name m nullable)

/-- The type that is written at a property's local. That of a validated value is left out. -/
def localType (mode : Mode) : PropertyKind → Option TypeName
  | .value _ => Option.none
  | kind => (localFailure mode kind).map fun failure => either failure (fieldType mode kind)

/-- How a property is validated. -/
def validation (mode : Mode) (p : Property) : Validation :=
  match validationExpr p.name p.kind with
  | some value => .byLocal ⟨p.resultName, localType mode p.kind, value⟩
  | Option.none => if p.kind.isStandard then .none else .parameter

/-- The result of a property's validation, if it is validated. -/
def Validation.result? (name : String) : Validation → Option (Expr TypeName)
  | none => Option.none
  | parameter => some (.parameter name)
  | byLocal l => some (.held l.name)

/-- The local of a validation, if there is one. -/
def Validation.local? : Validation → Option (Local TypeName TypeName)
  | byLocal l => some l
  | _ => Option.none

/-- The result of a property's validation, if it is validated. -/
def resultOf (mode : Mode) (p : Property) : Option (Expr TypeName) :=
  (validation mode p).result? p.name

/-- The argument by which the class receives a property. -/
def argumentOf (mode : Mode) (p : Property) : Argument TypeName :=
  match resultOf mode p with
  | some result => ⟨p.name, .content result⟩
  | Option.none => ⟨p.name, .parameter p.name⟩

/-- The condition that a property's validation succeeds, if it is validated. -/
def conditionOf (mode : Mode) (p : Property) : Option (Condition TypeName) :=
  (resultOf mode p).map fun result => ⟨result, .right⟩

/-- The case in which a property's validation fails, if it is validated. -/
def failureCaseOf (mode : Mode) (p : Property) : Option (FailureCase TypeName) :=
  (resultOf mode p).map fun result => ⟨⟨result, .left⟩, p.failureName, .content result⟩

/-- What a factory makes and what it fails with. -/
structure FactoryTarget where
  receiver : Option (Receiver TypeName)
  constructed : TypeName
  /-- the union that the variants are nested in -/
  variants : TypeName
  /-- the union that the failures belong to -/
  union : TypeName
  mode : Mode

/-- The failure branch of a factory, if anything can fail. -/
def failureBranch (t : FactoryTarget) (properties : List Property) :
    Option (FailureBranch TypeName TypeName) :=
  match properties.filterMap (failureCaseOf t.mode) with
  | [] => Option.none
  | cases => some ⟨properties.filterMap (conditionOf t.mode), t.variants, t.union, cases⟩

/-- The factory of a name for the given properties. -/
def factory (t : FactoryTarget) (name : String) (properties : List Property) :
    Factory TypeName TypeName where
  receiver := t.receiver
  name := name
  parameters := properties.map fun p => ⟨p.name, inputType t.mode p.kind⟩
  result := either (nonEmptyList t.union) t.constructed
  either := eitherClass
  locals := properties.filterMap fun p => (validation t.mode p).local?
  constructed := t.constructed
  arguments := properties.map (argumentOf t.mode)
  failure := failureBranch t properties

end ModelForge.Generation
