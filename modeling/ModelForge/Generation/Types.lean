/-
The types of classified properties in the generated code.

A generated class is a model or its params. In the params, nested models are replaced by
their params, and their failures by the union of required field failures.

* `fieldType` — what the class stores;
* `inputType` — what a factory takes: a raw value, or the result of a nested model's factory;
* `failurePayload` — what the property's variant carries, `localFailure` what its validation
  fails with;
* `builderType` — what a builder stages.
-/
import ModelForge.Property

namespace ModelForge.Generation

/-- Which of the two classes of a template code is generated for. -/
inductive Mode
  | model
  | params
deriving DecidableEq, Repr, Inhabited

/-- A class of the library of options, results and non-empty lists. -/
def arrow (name : String) : TypeName :=
  .simple "arrow.core" name

/-- The class of results. -/
def eitherClass : TypeName := arrow "Either"

/-- The empty option. -/
def noneObject : TypeName := arrow "None"

/-- The class of options that hold something. -/
def someClass : TypeName := arrow "Some"

/-- A result with its failure and its success. -/
def either (failure success : TypeName) : TypeName :=
  eitherClass.applied [failure, success]

/-- A non-empty list. -/
def nonEmptyList (element : TypeName) : TypeName :=
  (arrow "Nel").applied [element]

/-- An option. -/
def option (element : TypeName) : TypeName :=
  (arrow "Option").applied [element]

/-- A list. -/
def list (element : TypeName) : TypeName :=
  (TypeName.simple "kotlin.collections" "List").applied [element]

/-- The class of a nested model. -/
def nestedClass (m : NestedModel) : Mode → TypeName
  | .model => m.names.model
  | .params => m.names.params

/-- The union that a nested model's factory fails with. -/
def nestedFailure (m : NestedModel) : Mode → TypeName
  | .model => m.names.fieldFailure
  | .params => m.names.requiredFieldFailure

/-- The class of a nested model, nullable as the model is. -/
def nestedType (m : NestedModel) (mode : Mode) : TypeName :=
  (nestedClass m mode).withNullable m.nullable

/-- The result of a nested model's factory, nullable as the model is. -/
def nestedInput (m : NestedModel) (mode : Mode) : TypeName :=
  (either (nonEmptyList (nestedFailure m mode)) (nestedClass m mode)).withNullable m.nullable

mutual

/-- The type that the class stores. -/
def fieldType (mode : Mode) : PropertyKind → TypeName
  | .standard type [] => type
  | .standard type (a :: as) =>
    type.withArguments (fieldArgument mode a :: fieldArguments mode as)
  | .value v => v.wrapperType
  | .optionalValue v nullable => (option v.wrapperType).withNullable nullable
  | .model m => nestedType m mode
  | .optionalModel m nullable => (option (nestedType m mode)).withNullable nullable
  | .modelList m nullable => (list (nestedType m mode)).withNullable nullable
  | .modelNonEmptyList m nullable => (nonEmptyList (nestedType m mode)).withNullable nullable

/-- The type of an argument, `none` for a star. -/
def fieldArgument (mode : Mode) : Option PropertyKind → Option TypeName
  | none => none
  | some kind => some (fieldType mode kind)

/-- The types of the arguments. -/
def fieldArguments (mode : Mode) : List (Option PropertyKind) → List (Option TypeName)
  | [] => []
  | a :: as => fieldArgument mode a :: fieldArguments mode as

end

/-- The type that a factory takes. -/
def inputType (mode : Mode) : PropertyKind → TypeName
  | .standard type arguments => fieldType mode (.standard type arguments)
  | .value v => v.valueType
  | .optionalValue v nullable => (option v.valueType).withNullable nullable
  | .model m => nestedInput m mode
  | .optionalModel m nullable => (option (nestedInput m mode)).withNullable nullable
  | .modelList m nullable => (list (nestedInput m mode)).withNullable nullable
  | .modelNonEmptyList m nullable => (nonEmptyList (nestedInput m mode)).withNullable nullable

/-- What the property's variant carries. It is the same for both classes: a list of required
field failures is a list of field failures. -/
def failurePayload : PropertyKind → Option TypeName
  | .standard .. => none
  | .value v | .optionalValue v _ => some v.failure
  | .model m | .optionalModel m _ => some (nonEmptyList m.names.fieldFailure)
  | .modelList m _ | .modelNonEmptyList m _ =>
    some (nonEmptyList (nonEmptyList m.names.fieldFailure))

/-- What the property's validation fails with. -/
def localFailure (mode : Mode) : PropertyKind → Option TypeName
  | .standard .. => none
  | .value v | .optionalValue v _ => some v.failure
  | .model m | .optionalModel m _ => some (nonEmptyList (nestedFailure m mode))
  | .modelList m _ | .modelNonEmptyList m _ =>
    some (nonEmptyList (nonEmptyList (nestedFailure m mode)))

/-- The type that a builder stages in an option: nested models as their builders. -/
def builderType : PropertyKind → TypeName
  | .model m =>
    match m.names.builder? with
    | some builder => builder.withNullable m.nullable
    | none => fieldType .params (.model m)
  | kind => fieldType .params kind

end ModelForge.Generation
