/-
Reading values out of JSON documents.

A record is written as an object of its fields, or as an array of its fields in their order,
of which trailing ones with a default may be left out. The first problem in the order of the
document counts; a field that is missing is noticed when its record ends.

* `DecodeError` — what is wrong with a value, `message` its wording;
* `Json.field` — the value of a field that may be given once;
* `DocumentError` — what is wrong with a whole text.
-/
import ModelForge.Json.Reader
import ModelForge.TypeRef.Parser

namespace ModelForge

/-- What is wrong with a well-formed value. -/
inductive DecodeError
  | missingField (field : String)
  | duplicateField (field : String)
  | unknownVariant (found : String) (expected : List String)
  /-- neither a text nor an object that describes a type -/
  | noTypeForm
  /-- none of the forms of an annotation's argument -/
  | noArgumentForm
  | malformedType (cause : TypeRef.Malformed)
  | wrongType
  | wrongValue
  | wrongLength
  /-- an array goes on after the last field of its record -/
  | surplusItems
deriving DecidableEq, Repr

/-- The wording of a text that is no type reference. -/
def TypeRef.Malformed.message (m : TypeRef.Malformed) : String :=
  "Invalid type expression '" ++ m.text ++ "': " ++ m.fault.message

namespace DecodeError

/-- A name in the quotes that mark the names of fields and variants. -/
def ticked (name : String) : String :=
  "\x60" ++ name ++ "\x60"

/-- The wording of the error. -/
def message : DecodeError → String
  | missingField field => "missing field " ++ ticked field
  | duplicateField field => "duplicate field " ++ ticked field
  | unknownVariant found [a, b] =>
    "unknown variant " ++ ticked found ++ ", expected " ++ ticked a ++ " or " ++ ticked b
  | unknownVariant found expected =>
    "unknown variant " ++ ticked found ++ ", expected one of " ++
      String.intercalate ", " (expected.map ticked)
  | noTypeForm => "data did not match any variant of untagged enum TypeRefRepr"
  | noArgumentForm => "data did not match any variant of untagged enum AnnotationValue"
  | malformedType cause => cause.message
  | wrongType => "invalid type"
  | wrongValue => "invalid value"
  | wrongLength => "invalid length"
  | surplusItems => "trailing characters"

/-- The error for a value that is looked at only after the whole of it has been read: there,
surplus items are a wrong length. -/
def afterReading : DecodeError → DecodeError
  | surplusItems => wrongLength
  | e => e

end DecodeError

/-- What is wrong with a document: it is no JSON, or it does not have the form that is asked. -/
inductive DocumentError
  | malformed
  | mismatch (cause : DecodeError)
deriving DecidableEq, Repr

/-- The error's wording after a colon, nothing for a text that is no JSON. -/
def DocumentError.detail : DocumentError → String
  | malformed => ""
  | mismatch cause => ": " ++ cause.message

namespace Json

/-- What decoding gives. -/
abbrev Decoded := Except DecodeError

/-- The text of a string. -/
def toText : Json → Decoded String
  | string s => .ok s
  | _ => .error .wrongType

/-- The value of a boolean. -/
def toBool : Json → Decoded Bool
  | bool b => .ok b
  | _ => .error .wrongType

/-- The value of an integer that is not negative and has at most 64 bits. -/
def toCount : Json → Decoded Nat
  | integer n => if n < 0 then .error .wrongValue else .ok n.toNat
  | _ => .error .wrongType

/-- The items of an array, each decoded. -/
def toList {α : Type} (decode : Json → Decoded α) : Json → Decoded (List α)
  | array items => items.mapM decode
  | _ => .error .wrongType

/-- The value, or nothing for `null`. -/
def toOptional {α : Type} (decode : Json → Decoded α) : Json → Decoded (Option α)
  | null => .ok none
  | value => (decode value).map some

/-- The value of a field that is given here, if it has not been given before. -/
def field {α : Type} (name : String) (given : Option α) (decode : Json → Decoded α)
    (value : Json) : Decoded (Option α) :=
  if given.isSome then .error (.duplicateField name) else (decode value).map some

/-- The value of a field without a default. -/
def required {α : Type} (name : String) : Option α → Decoded α
  | some value => .ok value
  | none => .error (.missingField name)

/-- Decodes an object member by member. -/
def foldMembers {σ : Type} (set : σ → String → Json → Decoded σ) :
    σ → List (String × Json) → Decoded σ
  | s, [] => .ok s
  | s, (name, value) :: members => do foldMembers set (← set s name value) members

/-- Decodes an array item by item as the fields of the given names. -/
def foldItems {σ : Type} (set : σ → String → Json → Decoded σ) :
    σ → List String → List Json → Decoded σ
  | s, _, [] => .ok s
  | _, [], _ :: _ => .error .surplusItems
  | s, name :: names, item :: items => do foldItems set (← set s name item) names items

/-- The error for a record in array form: there, a missing field is a wrong length. -/
def inArray : DecodeError → DecodeError
  | .missingField _ => .wrongLength
  | e => e

/-- Decodes a record from either of its two forms. The fields are collected by `set` and
put together by `complete`. -/
def toRecord {σ α : Type} (names : List String) (start : σ)
    (set : σ → String → Json → Decoded σ) (complete : σ → Decoded α) : Json → Decoded α
  | object members => do complete (← foldMembers set start members)
  | array items => do (complete (← foldItems set start names items)).mapError inArray
  | _ => .error .wrongType

/-- Reads a text and decodes it. What is wrong with a value is told only if the whole text
is readable. -/
def decodeText {α : Type} (decode : Json → Decoded α) (text : String) :
    Except DocumentError α :=
  match read text with
  | none => .error .malformed
  | some value =>
    match decode value with
    | .ok a => .ok a
    | .error cause => .error (if value.isReadable then .mismatch cause else .malformed)

end Json

end ModelForge
