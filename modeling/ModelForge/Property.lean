/-
Classified properties.

The kind of a property says how it takes part in validation. A `ValidatedValue` wraps a raw
value and is made by its companion, which may refuse with a failure; a `NestedModel` is
another generated model. Either of them may stand alone or in an option, a model also in a
list or a non-empty list; everything else is `standard` and is passed on as it is.

* `PropertyKind.isNullable`, `PropertyKind.isOption` and `PropertyKind.label` describe a kind;
* `Property.failureName` and `Property.resultName` are the names derived from a property.
-/
import ModelForge.Names

namespace ModelForge

/-- A value that is made from a raw value by validation. -/
structure ValidatedValue where
  /-- the class of the validated value -/
  wrapper : TypeName
  /-- the type of the raw value -/
  value : TypeName
  /-- what validation fails with -/
  failure : TypeName
  nullable : Bool
deriving Repr, Inhabited

/-- The wrapper, nullable as the value is. -/
def ValidatedValue.wrapperType (v : ValidatedValue) : TypeName :=
  v.wrapper.withNullable v.nullable

/-- The raw type, nullable as the value is. -/
def ValidatedValue.valueType (v : ValidatedValue) : TypeName :=
  v.value.withNullable v.nullable

/-- A model that is generated itself. -/
structure NestedModel where
  names : ModelNames
  nullable : Bool
deriving Repr, Inhabited

/-- How a property takes part in validation. In a container, the inner nullability is the
element's and the outer one the container's. -/
inductive PropertyKind
  /-- passed on as it is; an argument `none` is a star -/
  | standard (type : TypeName) (arguments : List (Option PropertyKind))
  | value (value : ValidatedValue)
  | optionalValue (value : ValidatedValue) (nullable : Bool)
  | model (model : NestedModel)
  | optionalModel (model : NestedModel) (nullable : Bool)
  | modelList (model : NestedModel) (nullable : Bool)
  | modelNonEmptyList (model : NestedModel) (nullable : Bool)
deriving Repr

namespace PropertyKind

instance : Inhabited PropertyKind := ⟨standard default []⟩

/-- Whether the property is passed on as it is. -/
def isStandard : PropertyKind → Bool
  | standard .. => true
  | _ => false

/-- Whether the property may be null. -/
def isNullable : PropertyKind → Bool
  | standard type _ => type.nullable
  | value v => v.nullable
  | model m => m.nullable
  | optionalValue _ nullable | optionalModel _ nullable | modelList _ nullable
  | modelNonEmptyList _ nullable => nullable

/-- Whether the property is an option, a class called `option` where it is standard. -/
def isOption (option : String) : PropertyKind → Bool
  | optionalValue .. | optionalModel .. => true
  | standard type _ => type.canonicalName == option
  | _ => false

/-- The words for a kind. -/
def label : PropertyKind → String
  | standard .. => "standard"
  | value _ => "validated value"
  | optionalValue .. => "optional validated value"
  | model _ => "generated model"
  | optionalModel .. => "optional generated model"
  | modelList .. => "generated model list"
  | modelNonEmptyList .. => "generated model non-empty list"

end PropertyKind

/-- Where a property comes from. -/
inductive PropertyOrigin
  | declared
  /-- from the interface of this name -/
  | inherited (declaration : String)
  /-- from this annotation of the declaration -/
  | composed (root : String)
deriving DecidableEq, Repr, Inhabited

/-- A property of a model. -/
structure Property where
  name : String
  kind : PropertyKind
  /-- whether params and builder leave it out -/
  external : Bool
  origin : PropertyOrigin
  location : Option Location
deriving Repr, Inhabited

/-- The name of the property's variant in the union of field failures. -/
def Property.failureName (p : Property) : String :=
  capitalized p.name

/-- The name of the local that holds the property's validation result. -/
def Property.resultName (p : Property) : String :=
  ModelForge.resultName p.name

end ModelForge
