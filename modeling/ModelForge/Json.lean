/-
JSON documents.

A `Json` value keeps what a source document says and no more: the members of an object in
the order in which they are written, with repeated names, and integers exactly. No field
of a document takes a number with a fraction or an exponent, so of those only their
presence is kept (`fraction`).

A value that has the form of JSON but no meaning is `unreadable`: a string with half of a
surrogate pair, a number beyond the range of double precision, and an array or object that
is nested too deeply. Where a document's reader passes over a field it does not know, such
a value does no harm.
-/
namespace ModelForge

/-- A JSON value. -/
inductive Json
  | null
  | bool (value : Bool)
  | integer (value : Int)
  | fraction
  | string (value : String)
  | array (items : List Json)
  | object (members : List (String × Json))
  | unreadable
deriving Repr, Inhabited

namespace Json

mutual

/-- Whether every part of the value has a meaning. -/
def isReadable : Json → Bool
  | unreadable => false
  | array items => areReadable items
  | object members => areMembersReadable members
  | _ => true

/-- Whether every item has a meaning. -/
def areReadable : List Json → Bool
  | [] => true
  | item :: items => isReadable item && areReadable items

/-- Whether every member has a meaning. -/
def areMembersReadable : List (String × Json) → Bool
  | [] => true
  | (_, value) :: members => isReadable value && areMembersReadable members

end

/-- `null` for an absent value. -/
def optional {α : Type} (encode : α → Json) : Option α → Json
  | none => null
  | some value => encode value

/-- The array of the encoded values. -/
def list {α : Type} (encode : α → Json) (values : List α) : Json :=
  array (values.map encode)

end Json

end ModelForge
