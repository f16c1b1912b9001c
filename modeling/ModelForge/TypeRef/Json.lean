/-
The JSON form of type references.

A reference is written as a text, or as an object with a name, arguments and nullability.
In the object form an argument is a text, which may be a star or carry a variance, or again
an object. `TypeRef.toJson` writes the text.

* `TypeForm` is a value of the right shape, in which the texts have not been read;
* `TypeForm.toTypeRef` reads them, from left to right.
-/
import ModelForge.Json.Decode

namespace ModelForge

/-- A value that has the shape of a type reference. -/
inductive TypeForm
  | text (text : String)
  | structured (name : String) (arguments : List TypeForm) (nullable : Bool)
deriving Repr, Inhabited

namespace TypeForm

/-- The fields of the object form that have been met. -/
structure Fields where
  name : Option String
  arguments : Option (List TypeForm)
  nullable : Option Bool

/-- The form that the fields make, if the name is among them. -/
def Fields.complete? (f : Fields) : Option TypeForm :=
  f.name.map fun name => structured name (f.arguments.getD []) (f.nullable.getD false)

mutual

/-- The shape of a value, if it is one of a type reference. -/
def ofJson? : Json → Option TypeForm
  | .string s => some (text s)
  | .object members => (collect? ⟨none, none, none⟩ members).bind Fields.complete?
  | _ => none

/-- Collects the fields of an object. A field may be given once; others are passed over. -/
def collect? (f : Fields) : List (String × Json) → Option Fields
  | [] => some f
  | (name, value) :: members =>
    match set? f name value with
    | some f => collect? f members
    | none => none

/-- The fields with one more, if it fits. -/
def set? (f : Fields) (name : String) : Json → Option Fields
  | .array items =>
    if name = "arguments" then
      if f.arguments.isSome then none
      else (ofItems? items).map fun as => { f with arguments := some as }
    else if name = "name" ∨ name = "nullable" then none
    else some f
  | .string s =>
    if name = "name" then
      if f.name.isSome then none else some { f with name := some s }
    else if name = "arguments" ∨ name = "nullable" then none
    else some f
  | .bool b =>
    if name = "nullable" then
      if f.nullable.isSome then none else some { f with nullable := some b }
    else if name = "name" ∨ name = "arguments" then none
    else some f
  | _ => if name = "name" ∨ name = "arguments" ∨ name = "nullable" then none else some f

/-- The shapes of the items of an array. -/
def ofItems? : List Json → Option (List TypeForm)
  | [] => some []
  | item :: items =>
    match ofJson? item, ofItems? items with
    | some form, some forms => some (form :: forms)
    | _, _ => none

end

mutual

/-- Reads the texts of a form as a reference. -/
def toTypeRef : TypeForm → Except TypeRef.Malformed TypeRef
  | text s => TypeRef.parse s
  | structured name arguments nullable => do
    return .mk name (← toArguments arguments) nullable

/-- Reads the texts of a form as an argument. An object is invariant. -/
def toArgument : TypeForm → Except TypeRef.Malformed TypeArgument
  | text s => TypeArgument.parse s
  | structured name arguments nullable => do
    return .type .invariant (.mk name (← toArguments arguments) nullable)

/-- Reads the texts of several arguments. -/
def toArguments : List TypeForm → Except TypeRef.Malformed (List TypeArgument)
  | [] => return []
  | form :: forms => do return (← toArgument form) :: (← toArguments forms)

end

end TypeForm

/-- Decodes a type reference. Fields that are passed over must be readable, too. -/
def TypeRef.ofJson (value : Json) : Json.Decoded TypeRef :=
  match if value.isReadable then TypeForm.ofJson? value else none with
  | none => .error .noTypeForm
  | some form => form.toTypeRef.mapError .malformedType

/-- Writes a type reference as a text. -/
def TypeRef.toJson (t : TypeRef) : Json :=
  .string t.display

end ModelForge
