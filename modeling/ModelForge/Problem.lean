/-
What can go wrong.

A `Problem` is one cause, with the names that it is about. `message` is its wording, `code`
the code it is reported under, `help?` what may be done about it. A problem that is `fatal`
concerns the library of validated values and not only the declaration it was met in.

A `Diagnostic` is a problem together with the declaration that was skipped because of it.
-/
import ModelForge.Declaration
import ModelForge.Json.Decode

namespace ModelForge

/-- Why no failure type was found for a validated value. -/
inductive MissingFailure
  | noCompanion
  /-- the companion object does not lead to the validator interface of this name -/
  | noValidator (validator : String)
deriving DecidableEq, Repr

/-- Why the arguments of a reference do not bind the parameters of what it refers to. -/
inductive BindingFault
  /-- the validator interface takes its input, failure and output -/
  | validatorArity (found : Nat)
  | starFailure
  | starParameter (parameter : String)
  | arity (expected found : Nat)
deriving DecidableEq, Repr

/-- Why no code is generated for a model. -/
inductive GenerationFault
  | reusedFunction (template model function : String)
  | noBuilder (declaration : String)
deriving DecidableEq, Repr

/-- Why a file or directory could not be used. -/
inductive AccessFault
  | missingDirectory
  /-- the system refuses, for reasons of its own -/
  | refused
deriving DecidableEq, Repr

/-- A cause for which a run or the treatment of a declaration ends. -/
inductive Problem
  | access (path : String) (fault : AccessFault)
  | unsupportedLanguage (language : String)
  | invalidSource (path : String) (cause : DocumentError)
  | invalidConfig (path : String) (cause : DocumentError)
  | duplicateDeclaration (name first second : String)
  | malformedType (cause : TypeRef.Malformed)
  /-- the aliases in this type lead to more aliases without end -/
  | endlessAlias (type : String)
  | invalidArgument (use argument expected found : String)
  | notAnInterface (declaration marker : String)
  | notADataClass (declaration marker : String)
  | missingCompanion (declaration : String)
  | noProperties (declaration : String)
  | duplicateField (declaration field : String)
  | missingWrappedType (value marker : String)
  | unresolvedFailure (value : String) (reason : MissingFailure)
  | unboundParameter (value parameter : String)
  | invalidBinding (declaration reference : String) (fault : BindingFault)
  | generation (fault : GenerationFault)
deriving DecidableEq, Repr

/-- The wording of a missing failure type. -/
def MissingFailure.message : MissingFailure → String
  | noCompanion => "it has no companion object"
  | noValidator validator => "its companion object does not inherit '" ++ validator ++ "'"

/-- The wording of a failed binding. -/
def BindingFault.message : BindingFault → String
  | validatorArity found =>
    "expected 3 type arguments (input, failure, output), found " ++ toString found
  | starFailure => "the failure type is a star projection"
  | starParameter parameter => "type parameter '" ++ parameter ++ "' is bound to a star projection"
  | arity expected found =>
    "expected " ++ toString expected ++ " type arguments, found " ++ toString found

/-- The wording of a failed generation. -/
def GenerationFault.message : GenerationFault → String
  | reusedFunction template model function =>
    "validation template '" ++ template ++ "' of '" ++ model ++ "' reuses the function name '" ++
      function ++ "'"
  | noBuilder declaration => "\x60" ++ declaration ++ "\x60 has no builder"

/-- The wording of a failed access, after a colon. What the system says is left out. -/
def AccessFault.detail : AccessFault → String
  | missingDirectory => ": input directory does not exist"
  | refused => ""

namespace Problem

/-- The wording of the problem. -/
def message : Problem → String
  | access path fault => "Failed to access '" ++ path ++ "'" ++ fault.detail
  | unsupportedLanguage language => "Unsupported source language: " ++ language
  | invalidSource path cause => "Invalid source file '" ++ path ++ "'" ++ cause.detail
  | invalidConfig path cause => "Invalid configuration '" ++ path ++ "'" ++ cause.detail
  | duplicateDeclaration name first second =>
    "Duplicate declaration '" ++ name ++ "' in '" ++ second ++ "' (first declared in '" ++ first ++
      "')"
  | malformedType cause => cause.message
  | endlessAlias type =>
    "Invalid type expression '" ++ type ++ "': type alias expansion does not terminate"
  | invalidArgument use argument expected found =>
    "Annotation '" ++ use ++ "' has an invalid argument '" ++ argument ++ "': expected " ++
      expected ++ ", found " ++ found
  | notAnInterface declaration marker =>
    "'" ++ declaration ++ "' is annotated with '" ++ marker ++ "' but is not an interface"
  | notADataClass declaration marker =>
    "'" ++ declaration ++ "' is annotated with '" ++ marker ++ "' but is not a data class"
  | missingCompanion declaration => "'" ++ declaration ++ "' must declare a companion object"
  | noProperties declaration => "'" ++ declaration ++ "' must have at least one property"
  | duplicateField declaration field =>
    "'" ++ declaration ++ "' declares field '" ++ field ++ "' more than once"
  | missingWrappedType value marker =>
    "Validated value '" ++ value ++ "' must pass its wrapped type to '" ++ marker ++ "'"
  | unresolvedFailure value reason =>
    "Could not resolve the failure type of '" ++ value ++ "': " ++ reason.message
  | unboundParameter value parameter =>
    "Implementation of '" ++ value ++
      "' was parameterized, but no type arguments were found for '" ++ parameter ++ "'"
  | invalidBinding declaration reference fault =>
    "Invalid type argument binding from '" ++ reference ++ "' to '" ++ declaration ++ "': " ++
      fault.message
  | generation fault => "Failed to generate code: " ++ fault.message

/-- The code of the problem, without the program's name in front. -/
def topic : Problem → String
  | access .. => "io::access_failed"
  | unsupportedLanguage .. => "load::unsupported_language"
  | invalidSource .. => "load::invalid_source"
  | invalidConfig .. => "load::invalid_config"
  | duplicateDeclaration .. => "load::duplicate_declaration"
  | malformedType .. => "load::invalid_type_expression"
  | endlessAlias .. => "load::invalid_type_expression"
  | invalidArgument .. => "annotation::invalid_argument"
  | notAnInterface .. => "structure::not_an_interface"
  | notADataClass .. => "structure::not_a_data_class"
  | missingCompanion .. => "structure::missing_companion"
  | noProperties .. => "structure::no_properties"
  | duplicateField .. => "structure::duplicate_field"
  | missingWrappedType .. => "resolution::missing_wrapped_type"
  | unresolvedFailure .. => "resolution::unresolved_failure_type"
  | unboundParameter .. => "resolution::unbound_type_parameter"
  | invalidBinding .. => "resolution::invalid_binding"
  | generation .. => "codegen::generation_failed"

/-- The code that the problem is reported under. -/
def code (p : Problem) : String :=
  "modelsmith::" ++ p.topic

/-- What may be done about the problem. -/
def help? : Problem → Option String
  | unsupportedLanguage .. => some "The only supported source language is \"json\""
  | duplicateDeclaration .. =>
    some "Qualified names must be unique across all source files and the prelude"
  | malformedType .. | endlessAlias .. =>
    some "Type expressions look like \"kotlin.collections.List<out com.acme.Item>?\""
  | notAnInterface .. => some "Model templates must be declared as interfaces"
  | notADataClass .. => some "Validatable declarations must be data classes"
  | missingCompanion .. =>
    some "Generated factory functions are extensions of the companion object"
  | duplicateField .. =>
    some ("A composed field may not share its name with a declared property or a different " ++
      "composed field")
  | unresolvedFailure .. =>
    some ("The companion object must extend the value validator interface, directly or through " ++
      "other validators")
  | _ => none

/-- Whether the problem lies in the library of validated values: a value without a failure
type, or a validator whose parameters nothing binds. -/
def isFatal : Problem → Bool
  | unresolvedFailure .. | unboundParameter .. => true
  | _ => false

end Problem

/-- A problem with the declaration that was skipped because of it. -/
structure Diagnostic where
  declaration : String
  location : Option Location
  problem : Problem
deriving DecidableEq, Repr

/-- The written form of a diagnostic. -/
def Diagnostic.display (d : Diagnostic) : String :=
  match d.location with
  | some l => d.declaration ++ " (" ++ l.display ++ "): " ++ d.problem.message
  | none => d.declaration ++ ": " ++ d.problem.message

end ModelForge
