/-
The arguments of the marker annotations.

Each marker takes arguments of certain forms: the name of what is generated is an identifier,
the type of an added field a class literal, and its flag a boolean. `FieldDirective.decode`
and `Annotation.identifier` read them and say what was expected and what was found.
-/
import ModelForge.Problem
import ModelForge.Text.Letter

namespace ModelForge

/-- Whether a text is an identifier: a letter or an underscore, and then letters, numerals
and underscores. -/
def isIdentifier (text : String) : Bool :=
  match text.toList with
  | [] => false
  | c :: cs => (Text.isLetter c || c == '_') && cs.all fun c => Text.isWord c || c == '_'

/-- What is said of an argument that does not have the expected form. -/
def AnnotationValue.found : Option AnnotationValue → String
  | some (string s) => "string \"" ++ s ++ "\""
  | some value => value.kind
  | none => "nothing"

namespace Annotation

/-- The problem with an argument that does not have the expected form. -/
def mismatch (a : Annotation) (name expected : String) : Problem :=
  .invalidArgument a.type name expected (AnnotationValue.found (a.argument? name))

/-- The identifier that is passed as an argument. -/
def identifier (a : Annotation) (name : String) : Except Problem String :=
  match a.argument? name with
  | some (.string s) =>
    if isIdentifier s then .ok s else .error (a.mismatch name "an identifier string")
  | _ => .error (a.mismatch name "an identifier string")

/-- The class literal that is passed as an argument. -/
def typeArgument (a : Annotation) (name : String) : Except Problem TypeRef :=
  match a.argument? name with
  | some (.classLiteral ref) => .ok ref
  | _ => .error (a.mismatch name "a class literal")

/-- The boolean that is passed as an argument, or the default where nothing is passed. -/
def flag (a : Annotation) (name : String) (default : Bool) : Except Problem Bool :=
  match a.argument? name with
  | none => .ok default
  | some (.bool b) => .ok b
  | some _ => .error (a.mismatch name "a boolean")

end Annotation

/-- A field that an annotation adds to a model. -/
structure FieldDirective where
  name : String
  type : TypeRef
  /-- whether params and builder leave the field out -/
  ignore : Bool
deriving DecidableEq, Repr, Inhabited

/-- Reads the arguments of an annotation that adds a field. -/
def FieldDirective.decode (a : Annotation) : Except Problem FieldDirective := do
  return ⟨← a.identifier "name", ← a.typeArgument "type", ← a.flag "ignore" true⟩

end ModelForge
