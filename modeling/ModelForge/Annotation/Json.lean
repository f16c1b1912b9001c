/-
The JSON form of annotations.

An annotation is a record of the class's name (`type`) and its `arguments`. An argument is
the first that fits of: a boolean, an integer of 64 bits with a sign, a string, an object
whose `class` is a type reference, an annotation, and an array of arguments. So an array of
one string is an annotation, and an array of two strings is an array.

Of several arguments with one name the last counts.
-/
import ModelForge.Annotation
import ModelForge.TypeRef.Json

namespace ModelForge

namespace Annotation

/-- The fields of an annotation that have been met. -/
structure Fields where
  type : Option String
  arguments : Option (List (String × AnnotationValue))

/-- The fields of a record of which nothing has been met. -/
def Fields.start : Fields := ⟨none, none⟩

/-- The annotation that the fields make. -/
def Fields.complete (f : Fields) : Json.Decoded Annotation := do
  return Annotation.mk (← Json.required "type" f.type) (f.arguments.getD [])

/-- The names of the fields, in their order. -/
def fieldNames : List String := ["type", "arguments"]

end Annotation

/-- The type of a class literal among the members of an object, if `class` is given once. -/
def AnnotationValue.classOf? (members : List (String × Json)) : Option TypeRef :=
  match members.filter fun m => m.1 = "class" with
  | [(_, value)] => (TypeRef.ofJson value).toOption
  | _ => none

/-- Whether an integer fits in 64 bits with a sign. -/
def AnnotationValue.fits (n : Int) : Bool :=
  -Int.pow 2 63 ≤ n && n < Int.pow 2 63

mutual

/-- Decodes an argument's value. -/
def AnnotationValue.ofJson : Json → Json.Decoded AnnotationValue
  | .bool b => .ok (.bool b)
  | .integer n =>
    if AnnotationValue.fits n then .ok (.integer n) else .error .noArgumentForm
  | .string s => .ok (.string s)
  | .object members =>
    match AnnotationValue.classOf? members with
    | some ref => .ok (.classLiteral ref)
    | none =>
      match Annotation.ofMembers .start members >>= Annotation.Fields.complete with
      | .ok a => .ok (.nested a)
      | .error _ => .error .noArgumentForm
  | .array items =>
    match Annotation.ofItems .start Annotation.fieldNames items >>= Annotation.Fields.complete with
    | .ok a => .ok (.nested a)
    | .error _ =>
      match AnnotationValue.ofItems items with
      | .ok values => .ok (.array values)
      | .error _ => .error .noArgumentForm
  | _ => .error .noArgumentForm

/-- Decodes the items of an array of values. -/
def AnnotationValue.ofItems : List Json → Json.Decoded (List AnnotationValue)
  | [] => .ok []
  | item :: items => do
    let value ← AnnotationValue.ofJson item
    return value :: (← AnnotationValue.ofItems items)

/-- Decodes the arguments of an annotation. -/
def AnnotationValue.ofMembers :
    List (String × Json) → Json.Decoded (List (String × AnnotationValue))
  | [] => .ok []
  | (name, value) :: members => do
    let value ← AnnotationValue.ofJson value
    return Annotation.addArgument name value (← AnnotationValue.ofMembers members)

/-- The fields of an annotation with one more. -/
def Annotation.set (f : Annotation.Fields) (name : String) :
    Json → Json.Decoded Annotation.Fields
  | .object members =>
    if name = "arguments" then
      if f.arguments.isSome then .error (.duplicateField name)
      else if Json.areMembersReadable members then do
        return { f with arguments := some (← AnnotationValue.ofMembers members) }
      else .error .wrongType
    else if name = "type" then do
      return { f with type := ← Json.field name f.type Json.toText (.object members) }
    else .ok f
  | value =>
    if name = "arguments" then
      if f.arguments.isSome then .error (.duplicateField name) else .error .wrongType
    else if name = "type" then do
      return { f with type := ← Json.field name f.type Json.toText value }
    else .ok f

/-- Decodes an annotation's object member by member. -/
def Annotation.ofMembers (f : Annotation.Fields) :
    List (String × Json) → Json.Decoded Annotation.Fields
  | [] => .ok f
  | (name, value) :: members => do
    Annotation.ofMembers (← Annotation.set f name value) members

/-- Decodes an annotation's array item by item. -/
def Annotation.ofItems (f : Annotation.Fields) (names : List String) :
    List Json → Json.Decoded Annotation.Fields
  | [] => .ok f
  | item :: items =>
    match names with
    | [] => .error .surplusItems
    | name :: names => do Annotation.ofItems (← Annotation.set f name item) names items

end

/-- Decodes an annotation. -/
def Annotation.ofJson : Json → Json.Decoded Annotation
  | .object members => do (← Annotation.ofMembers .start members).complete
  | .array items => do
    ((← Annotation.ofItems .start fieldNames items).complete).mapError Json.inArray
  | _ => .error .wrongType

mutual

/-- Writes an annotation as an object. -/
def Annotation.toJson : Annotation → Json
  | .mk type arguments =>
    .object [("type", .string type), ("arguments", .object (AnnotationValue.toMembers arguments))]

/-- Writes an argument's value. -/
def AnnotationValue.toJson : AnnotationValue → Json
  | .bool b => .bool b
  | .integer n => .integer n
  | .string s => .string s
  | .classLiteral ref => .object [("class", ref.toJson)]
  | .nested a => a.toJson
  | .array items => .array (AnnotationValue.toItems items)

/-- Writes the items of an array. -/
def AnnotationValue.toItems : List AnnotationValue → List Json
  | [] => []
  | value :: values => value.toJson :: AnnotationValue.toItems values

/-- Writes the arguments of an annotation. -/
def AnnotationValue.toMembers : List (String × AnnotationValue) → List (String × Json)
  | [] => []
  | (name, value) :: arguments => (name, value.toJson) :: AnnotationValue.toMembers arguments

end

end ModelForge
