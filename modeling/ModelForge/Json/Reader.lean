/-
Reading JSON documents.

`Json.read` reads a whole text: blanks are the space, the tab and the two line ends,
control characters may not stand in strings, nothing may follow the value, and arrays and
objects may be nested `maxDepth` deep.

* strings are read as UTF-16 units first, and `joinUnits` then joins the pairs of
  surrogates; half a pair makes the value unreadable;
* the readers of nested values return the rest of the text with the fact that it is
  shorter, by which they end.
-/
import ModelForge.Json.Numeral

namespace ModelForge.Json

/-- What was read of `cs`, and a rest that is shorter. -/
abbrev Shorter (α : Type) (cs : List Char) :=
  { r : α × List Char // r.2.length < cs.length }

/-- How deep arrays and objects may be nested. -/
def maxDepth : Nat := 127

/-! ### Blanks -/

/-- A blank of a JSON document. -/
def isSpace (c : Char) : Bool :=
  c == ' ' || c == '\n' || c == '\t' || c == '\r'

/-- The text after its leading blanks. -/
def skipSpace (cs : List Char) : List Char :=
  cs.dropWhile isSpace

theorem skipSpace_length_le (cs : List Char) : (skipSpace cs).length ≤ cs.length :=
  (List.dropWhile_suffix isSpace).length_le

theorem length_lt_of_skipSpace {cs rest : List Char} {c : Char} (h : skipSpace cs = c :: rest) :
    rest.length < cs.length := by
  have h₁ := skipSpace_length_le cs
  rw [h] at h₁
  exact h₁

/-! ### Strings -/

/-- The value of a hexadecimal digit. -/
def hexValue (c : Char) : Option Nat :=
  if c.isDigit then some (c.toNat - 48)
  else if 'a' ≤ c ∧ c ≤ 'f' then some (c.toNat - 87)
  else if 'A' ≤ c ∧ c ≤ 'F' then some (c.toNat - 55)
  else none

/-- The unit that four hexadecimal digits give. -/
def hexUnit (a b c d : Char) : Option Nat := do
  return (((← hexValue a) * 16 + (← hexValue b)) * 16 + (← hexValue c)) * 16 + (← hexValue d)

/-- The unit that a one-letter escape stands for. -/
def escapedUnit : Char → Option Nat
  | '"' => some 0x22
  | '\\' => some 0x5C
  | '/' => some 0x2F
  | 'b' => some 0x08
  | 'f' => some 0x0C
  | 'n' => some 0x0A
  | 'r' => some 0x0D
  | 't' => some 0x09
  | _ => none

/-- Reads the units of a string after its opening quote, and the closing quote. A character
that is written out is a unit of its own. -/
def readUnits : List Char → Option (List Nat × List Char)
  | [] => none
  | '"' :: rest => some ([], rest)
  | '\\' :: 'u' :: a :: b :: c :: d :: rest =>
    match hexUnit a b c d, readUnits rest with
    | some unit, some (units, rest') => some (unit :: units, rest')
    | _, _ => none
  | '\\' :: e :: rest =>
    match escapedUnit e, readUnits rest with
    | some unit, some (units, rest') => some (unit :: units, rest')
    | _, _ => none
  | c :: rest =>
    if c.toNat < 0x20 ∨ c = '\\' then none
    else
      match readUnits rest with
      | some (units, rest') => some (c.toNat :: units, rest')
      | none => none

theorem length_lt_of_readUnits : ∀ {cs : List Char} {units : List Nat} {rest : List Char},
    readUnits cs = some (units, rest) → rest.length < cs.length := by
  intro cs
  fun_induction readUnits cs <;> intro units rest h <;> simp_all <;> grind

/-- A unit that opens a surrogate pair. -/
def isHighSurrogate (u : Nat) : Bool := 0xD800 ≤ u && u ≤ 0xDBFF

/-- A unit that closes a surrogate pair. -/
def isLowSurrogate (u : Nat) : Bool := 0xDC00 ≤ u && u ≤ 0xDFFF

/-- The characters that the units stand for, if no surrogate stands alone. -/
def joinUnits : List Nat → Option (List Char)
  | [] => some []
  | [u] => if isHighSurrogate u || isLowSurrogate u then none else some [Char.ofNat u]
  | u :: v :: rest =>
    if isHighSurrogate u then
      if isLowSurrogate v then
        (joinUnits rest).map
          (Char.ofNat (0x10000 + (u - 0xD800) * 0x400 + (v - 0xDC00)) :: ·)
      else none
    else if isLowSurrogate u then none
    else (joinUnits (v :: rest)).map (Char.ofNat u :: ·)

/-- The text of a string, if it is readable. -/
def textOfUnits (units : List Nat) : Option String :=
  (joinUnits units).map String.ofList

/-! ### Values -/

/-- Reads a number as a value. -/
def readNumber (cs : List Char) : Option (Shorter Json cs) :=
  match h : readNumeral cs with
  | some (n, rest) => some ⟨(n.value, rest), length_lt_of_readNumeral h⟩
  | none => none

/-- Reads a value whose first character is none of a string, an array or an object. -/
def readScalar (cs : List Char) : Option (Shorter Json cs) :=
  match cs with
  | 'n' :: 'u' :: 'l' :: 'l' :: rest => some ⟨(null, rest), by simp; omega⟩
  | 't' :: 'r' :: 'u' :: 'e' :: rest => some ⟨(bool true, rest), by simp; omega⟩
  | 'f' :: 'a' :: 'l' :: 's' :: 'e' :: rest => some ⟨(bool false, rest), by simp; omega⟩
  | cs => readNumber cs

/-- The array or object `value`, readable if there is room for one more level. -/
def nest (room : Nat) (value : Json) : Json :=
  if room = 0 then unreadable else value

/-- The object of the members, readable if all their names are. -/
def objectOf (members : List (Option String × Json)) : Json :=
  match members.mapM fun m => m.1.map (·, m.2) with
  | some ms => object ms
  | none => unreadable

mutual

/-- Reads a value, with room for so many levels of arrays and objects. -/
def readValue (room : Nat) (cs : List Char) : Option (Shorter Json cs) :=
  match h : skipSpace cs with
  | '"' :: rest =>
    match h' : readUnits rest with
    | some (units, rest') =>
      some ⟨(match textOfUnits units with
        | some text => string text
        | none => unreadable, rest'),
        Nat.lt_trans (length_lt_of_readUnits h') (length_lt_of_skipSpace h)⟩
    | none => none
  | '[' :: rest =>
    match h' : skipSpace rest with
    | ']' :: rest' =>
      some ⟨(nest room (array []), rest'),
        Nat.lt_trans (length_lt_of_skipSpace h') (length_lt_of_skipSpace h)⟩
    | _ =>
      have h₁ := length_lt_of_skipSpace h
      match readItems (room - 1) rest with
      | some ⟨(items, rest'), h''⟩ =>
        some ⟨(nest room (array items), rest'), Nat.lt_trans h'' h₁⟩
      | none => none
  | '\x7b' :: rest =>
    match h' : skipSpace rest with
    | '\x7d' :: rest' =>
      some ⟨(nest room (object []), rest'),
        Nat.lt_trans (length_lt_of_skipSpace h') (length_lt_of_skipSpace h)⟩
    | _ =>
      have h₁ := length_lt_of_skipSpace h
      match readMembers (room - 1) rest with
      | some ⟨(members, rest'), h''⟩ =>
        some ⟨(nest room (objectOf members), rest'), Nat.lt_trans h'' h₁⟩
      | none => none
  | ds =>
    match readScalar ds with
    | some ⟨(value, rest), h'⟩ =>
      some ⟨(value, rest), Nat.lt_of_lt_of_le h' (h ▸ skipSpace_length_le cs)⟩
    | none => none
termination_by (cs.length, 0)

/-- Reads the items of an array, at least one, and the closing bracket. -/
def readItems (room : Nat) (cs : List Char) : Option (Shorter (List Json) cs) :=
  match readValue room cs with
  | none => none
  | some ⟨(item, ds), h⟩ =>
    match h' : skipSpace ds with
    | ',' :: rest =>
      have h₁ := Nat.lt_trans (length_lt_of_skipSpace h') h
      match readItems room rest with
      | some ⟨(items, rest'), h''⟩ => some ⟨(item :: items, rest'), Nat.lt_trans h'' h₁⟩
      | none => none
    | ']' :: rest => some ⟨([item], rest), Nat.lt_trans (length_lt_of_skipSpace h') h⟩
    | _ => none
termination_by (cs.length, 1)

/-- Reads the members of an object, at least one, and the closing brace. -/
def readMembers (room : Nat) (cs : List Char) :
    Option (Shorter (List (Option String × Json)) cs) :=
  match h : skipSpace cs with
  | '"' :: rest =>
    match h₁ : readUnits rest with
    | none => none
    | some (units, ds₁) =>
      match h₂ : skipSpace ds₁ with
      | ':' :: ds₂ =>
        have h₃ : ds₂.length < cs.length :=
          Nat.lt_trans (length_lt_of_skipSpace h₂)
            (Nat.lt_trans (length_lt_of_readUnits h₁) (length_lt_of_skipSpace h))
        match readValue room ds₂ with
        | none => none
        | some ⟨(value, ds₃), h₄⟩ =>
          match h₅ : skipSpace ds₃ with
          | ',' :: ds₄ =>
            have h₆ : ds₄.length < cs.length :=
              Nat.lt_trans (length_lt_of_skipSpace h₅) (Nat.lt_trans h₄ h₃)
            match readMembers room ds₄ with
            | some ⟨(members, ds₅), h₇⟩ =>
              some ⟨((textOfUnits units, value) :: members, ds₅), Nat.lt_trans h₇ h₆⟩
            | none => none
          | '\x7d' :: ds₄ =>
            some ⟨([(textOfUnits units, value)], ds₄),
              Nat.lt_trans (length_lt_of_skipSpace h₅) (Nat.lt_trans h₄ h₃)⟩
          | _ => none
      | _ => none
  | _ => none
termination_by (cs.length, 1)

end

/-- Reads a text as one JSON value. -/
def read (text : String) : Option Json :=
  match readValue maxDepth text.toList with
  | some ⟨(value, rest), _⟩ => if (skipSpace rest).isEmpty then some value else none
  | none => none

end ModelForge.Json
