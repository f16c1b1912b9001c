/-
The bundled library, as declarations.

The annotations, value objects and validators that every model may refer to without
declaring them. They describe the classes whose Kotlin source `Library.sources` holds.
-/
import ModelForge.Declaration

namespace ModelForge.Library

/-- What is given in place of a path for the declarations of the library. -/
def path : String := "<prelude>"

/-- A class of the library. -/
def libraryClass (package name : String) (kind : ClassKind) (typeParameters : List String)
    (superTypes : List TypeRef) : ClassDecl where
  package := package
  name := name
  kind := kind
  typeParameters := typeParameters
  superTypes := superTypes
  annotations := []
  properties := []
  companion := none
  nested := []
  isPrivate := false
  location := none

/-- A type applied to types. -/
def apply (name : String) (arguments : List TypeRef) : TypeRef :=
  .mk name (arguments.map (.type .invariant)) false

/-- An annotation without arguments. -/
def use (type : String) : Annotation :=
  .mk type []

/-- An annotation that adds a field. Where nothing is said, params and builder leave it out. -/
def addField (name type : String) (ignore : Option Bool) : Annotation :=
  .mk "modelsmith.annotation.AddField"
    ((ignore.map fun b => ("ignore", AnnotationValue.bool b)).toList ++
      [("name", .string name), ("type", .classLiteral (.named type))])

/-- An annotation class with the annotations it carries besides its target and retention. -/
def annotationClass (name : String) (annotations : List Annotation) : Declaration :=
  .ofClass { libraryClass "modelsmith.annotation" name .annotationClass [] [] with
    annotations := annotations ++
      [use "kotlin.annotation.Target", use "kotlin.annotation.Retention"] }

/-- A class of the library's core. -/
def coreClass (kind : ClassKind) (name : String) (typeParameters : List String)
    (superTypes : List TypeRef) : Declaration :=
  .ofClass (libraryClass "modelsmith.core" name kind typeParameters superTypes)

/-- An abstract validator. -/
def validator (name : String) (typeParameters : List String) (superTypes : List TypeRef) :
    Declaration :=
  .ofClass (libraryClass "modelsmith.core.valuevalidator" name .abstract typeParameters superTypes)

/-- A value object around a raw type, made by a validator. -/
def valueObject (name raw validator : String) : Declaration :=
  .ofClass { libraryClass "modelsmith.core.valueobject" name .value []
      [apply "modelsmith.core.ValueObject" [.named raw]] with
    companion := some ⟨"Companion", [], [apply ("modelsmith.core.valuevalidator." ++ validator)
      [.named ("modelsmith.core.valueobject." ++ name)]]⟩ }

/-- The annotations. -/
def annotations : List Declaration :=
  [
    annotationClass "ModelTemplate" [],
    annotationClass "Validatable" [],
    annotationClass "External" [],
    annotationClass "AddField" [use "kotlin.annotation.Repeatable"],
    annotationClass "HasCreated" [addField "created" "kotlinx.datetime.Instant" none],
    annotationClass "HasUpdated" [addField "updated" "kotlinx.datetime.Instant" none],
    annotationClass "HasCreatedAndUpdated"
      [use "modelsmith.annotation.HasUpdated", use "modelsmith.annotation.HasCreated"],
    annotationClass "HasCreatorId"
      [addField "creatorId" "modelsmith.core.valueobject.PositiveInt" (some false)],
    annotationClass "HasUpdaterId"
      [addField "updaterId" "modelsmith.core.valueobject.PositiveInt" (some false)],
    annotationClass "Creatable"
      [use "modelsmith.annotation.HasCreatorId", use "modelsmith.annotation.HasCreated"],
    annotationClass "Updatable"
      [use "modelsmith.annotation.HasUpdaterId", use "modelsmith.annotation.HasUpdated"],
    annotationClass "CreatableAndUpdatable"
      [use "modelsmith.annotation.Updatable", use "modelsmith.annotation.Creatable"],
    annotationClass "ValidationTemplate" [],
    annotationClass "ModelValidationTemplate" [],
    annotationClass "ParamsValidationTemplate" []
  ]

/-- The interfaces of values and validators, and the common failures. -/
def core : List Declaration :=
  [
    coreClass .interface "ValueObject" ["T"] [],
    coreClass .interface "ValueFailure" ["I"] [],
    coreClass .data "GenericValueFailure" ["I"] [apply "modelsmith.core.ValueFailure" [.named "I"]],
    coreClass .data "StringLengthRangeFailure" [] [apply "modelsmith.core.ValueFailure"
      [.named "kotlin.String"]],
    coreClass .interface "LengthRange" [] [],
    coreClass .interface "ValueValidator" ["I", "F", "T"] []
  ]

/-- The validator interface of a validator whose outputs are of its type parameter `T`. -/
def validates (input failure : TypeRef) : TypeRef :=
  apply "modelsmith.core.ValueValidator" [input, failure, .named "T"]

/-- The failure that holds the refused input and nothing else. -/
def genericFailure (input : TypeRef) : TypeRef :=
  apply "modelsmith.core.GenericValueFailure" [input]

/-- The validator of a least value for inputs of a class. -/
def leastValue (input : String) : TypeRef :=
  apply "modelsmith.core.valuevalidator.ComparableMinValueValidator" [.named "T", .named input]

/-- The validator interface for texts that are refused as they are. -/
def validatesText : TypeRef :=
  validates (.named "kotlin.String") (genericFailure (.named "kotlin.String"))

/-- The validators. -/
def validators : List Declaration :=
  [
    validator "ComparableMinValueValidator" ["T", "C"]
      [validates (.named "C") (genericFailure (.named "C"))],
    validator "IntMinValueValidator" ["T"] [leastValue "kotlin.Int"],
    validator "LongMinValueValidator" ["T"] [leastValue "kotlin.Long"],
    validator "PositiveIntValidator" ["T"]
      [apply "modelsmith.core.valuevalidator.IntMinValueValidator" [.named "T"]],
    validator "NonNegativeIntValidator" ["T"]
      [apply "modelsmith.core.valuevalidator.IntMinValueValidator" [.named "T"]],
    validator "PositiveLongValidator" ["T"]
      [apply "modelsmith.core.valuevalidator.LongMinValueValidator" [.named "T"]],
    validator "StringLengthRangeValidator" ["T"]
      [validates (.named "kotlin.String") (.named "modelsmith.core.StringLengthRangeFailure"),
        .named "modelsmith.core.LengthRange"],
    validator "NonEmptyStringValidator" ["T"] [validatesText],
    validator "NonBlankStringValidator" ["T"] [validatesText],
    validator "StringInRegexValidator" ["T"] [validatesText],
    validator "EmailAddressValidator" ["T"]
      [apply "modelsmith.core.valuevalidator.StringInRegexValidator" [.named "T"]]
  ]

/-- The value objects. -/
def valueObjects : List Declaration :=
  [
    valueObject "PositiveInt" "kotlin.Int" "IntMinValueValidator",
    valueObject "NonNegativeInt" "kotlin.Int" "IntMinValueValidator",
    valueObject "PositiveLong" "kotlin.Long" "LongMinValueValidator",
    valueObject "NonEmptyString" "kotlin.String" "NonEmptyStringValidator",
    valueObject "NonBlankString" "kotlin.String" "NonBlankStringValidator",
    valueObject "EmailAddress" "kotlin.String" "EmailAddressValidator",
    valueObject "String25" "kotlin.String" "StringLengthRangeValidator",
    valueObject "String30" "kotlin.String" "StringLengthRangeValidator",
    valueObject "String50" "kotlin.String" "StringLengthRangeValidator",
    valueObject "String75" "kotlin.String" "StringLengthRangeValidator",
    valueObject "String100" "kotlin.String" "StringLengthRangeValidator",
    valueObject "String150" "kotlin.String" "StringLengthRangeValidator",
    valueObject "String200" "kotlin.String" "StringLengthRangeValidator",
    valueObject "String300" "kotlin.String" "StringLengthRangeValidator",
    valueObject "String500" "kotlin.String" "StringLengthRangeValidator"
  ]

/-- All declarations of the library. -/
def sourceFile : SourceFile :=
  ⟨path, annotations ++ core ++ validators ++ valueObjects⟩

end ModelForge.Library
