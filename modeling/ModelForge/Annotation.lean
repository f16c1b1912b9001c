/-
Annotations.

An `Annotation` is a use of an annotation class: the class's qualified name and the
arguments that are passed. An argument is a boolean, an integer, a string, a class literal,
another annotation or an array of such values.

The arguments are kept in increasing order of their names, each name once.

* `Annotation.argument?` — the argument passed under a name;
* `Annotation.find?` — the first annotation of a class in a list.
-/
import ModelForge.TypeRef

namespace ModelForge

mutual

/-- A use of an annotation class. -/
inductive Annotation
  | mk (type : String) (arguments : List (String × AnnotationValue))

/-- The value of an annotation's argument. -/
inductive AnnotationValue
  | bool (value : Bool)
  | integer (value : Int)
  | string (value : String)
  | classLiteral (ref : TypeRef)
  | nested (value : Annotation)
  | array (items : List AnnotationValue)

end

deriving instance Repr for Annotation, AnnotationValue

instance : Inhabited Annotation := ⟨.mk "" []⟩

/-- The word for the form of a value. -/
def AnnotationValue.kind : AnnotationValue → String
  | bool _ => "boolean"
  | integer _ => "integer"
  | string _ => "string"
  | classLiteral _ => "class literal"
  | nested _ => "annotation"
  | array _ => "array"

namespace Annotation

/-- The qualified name of the annotation class. -/
def type : Annotation → String
  | mk type _ => type

/-- The arguments, in increasing order of their names. -/
def arguments : Annotation → List (String × AnnotationValue)
  | mk _ arguments => arguments

@[simp] theorem type_mk (t : String) (as : List (String × AnnotationValue)) : (mk t as).type = t :=
  rfl

@[simp] theorem arguments_mk (t : String) (as : List (String × AnnotationValue)) :
    (mk t as).arguments = as := rfl

/-- The argument passed under a name. -/
def argument? (a : Annotation) (name : String) : Option AnnotationValue :=
  a.arguments.lookup name

/-- The first annotation of the class `type`. -/
def find? (annotations : List Annotation) (type : String) : Option Annotation :=
  annotations.find? fun a => a.type == type

/-- The list with an argument added in its place, unless one of that name is there. -/
def addArgument (name : String) (value : AnnotationValue) :
    List (String × AnnotationValue) → List (String × AnnotationValue)
  | [] => [(name, value)]
  | (other, old) :: rest =>
    if name < other then (name, value) :: (other, old) :: rest
    else if name = other then (other, old) :: rest
    else (other, old) :: addArgument name value rest

theorem lookup_addArgument_self (name : String) (value : AnnotationValue) :
    ∀ as : List (String × AnnotationValue), as.lookup name = none →
      (addArgument name value as).lookup name = some value
  | [], _ => by simp [addArgument]
  | (other, old) :: rest, h => by
    by_cases hn : name = other
    · subst hn
      simp at h
    · have hne : (name == other) = false := by simpa using hn
      have hrest : rest.lookup name = none := by simpa [List.lookup_cons, hne] using h
      unfold addArgument
      split
      · exact List.lookup_cons_self
      · simpa [List.lookup_cons, hne, hn] using lookup_addArgument_self name value rest hrest

end Annotation

end ModelForge
