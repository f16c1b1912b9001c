/-
Reading type references.

    type      := name arguments? '?'?
    name      := word ('.' word)*
    arguments := '<' argument (',' argument)* '>'
    argument  := '*' | ('in' | 'out')? type

Blank characters may stand in front of every token and at the end, except in front of a
dot; `in` and `out` are keywords only if a blank and then the start of a word follow, so
that types may be called `in` or `out`.

* `TypeRef.parse` reads a whole text as a reference, `TypeArgument.parse` as an argument;
* each reading step returns what it read together with the rest of the text and the fact
  that the rest is shorter, by which the readers of nested arguments end;
* `Fault` says what was wrong at the place where reading stopped.
-/
import ModelForge.Text.Blank
import ModelForge.Text.Letter
import ModelForge.TypeRef

namespace ModelForge

open Text

namespace TypeRef

/-- What is wrong with a text that is no type reference. -/
inductive Fault
  /-- a word was expected, and this character, or the end, was found -/
  | expectedWord (found : Option Char)
  /-- an argument is followed neither by a comma nor by the closing bracket -/
  | expectedSeparator
  /-- the reference is over, and this character follows at this offset -/
  | unexpected (found : Char) (offset : Nat)
deriving DecidableEq, Repr

/-- The wording of a fault. -/
def Fault.message : Fault → String
  | expectedWord (some c) => "expected identifier, found '" ++ String.singleton c ++ "'"
  | expectedWord none => "expected identifier, found end of input"
  | expectedSeparator => "expected ',' or '>' in type arguments"
  | unexpected c offset => "unexpected '" ++ String.singleton c ++ "' at offset " ++ toString offset

/-- A text that is no type reference. -/
structure Malformed where
  text : String
  fault : Fault
deriving DecidableEq, Repr

/-- The characters of a word in a name. -/
def isNameChar (c : Char) : Bool :=
  isWord c || c == '_' || c == '$'

/-- The characters that a type may start with after `in` or `out`. -/
def isTypeStart (c : Char) : Bool :=
  isWord c || c == '_'

/-- The result of a reading step on `cs`: what was read, and a rest that is shorter. -/
abbrev Step (α : Type) (cs : List Char) :=
  Except Fault { r : α × List Char // r.2.length < cs.length }

/-! ### Tokens -/

/-- The text after the mark, if the mark comes next. -/
def takeMark (mark : Char) (cs : List Char) : Option (List Char) :=
  match skipBlank cs with
  | [] => none
  | c :: rest => if c = mark then some rest else none

theorem takeMark_eq_some {mark : Char} {cs rest : List Char} :
    takeMark mark cs = some rest ↔ skipBlank cs = mark :: rest := by
  unfold takeMark
  cases h : skipBlank cs with
  | nil => simp
  | cons c ds =>
    by_cases hc : c = mark
    · simp [hc]
    · simp [hc]

theorem length_lt_of_takeMark {mark : Char} {cs rest : List Char}
    (h : takeMark mark cs = some rest) : rest.length < cs.length := by
  have h₁ := skipBlank_length_le cs
  rw [takeMark_eq_some.1 h] at h₁
  exact h₁

/-- Reads a word, after blanks. -/
def readWord (cs : List Char) : Step (List Char) cs :=
  let ds := skipBlank cs
  if h : (ds.takeWhile isNameChar).isEmpty then .error (.expectedWord ds.head?)
  else .ok ⟨(ds.takeWhile isNameChar, ds.dropWhile isNameChar), by
    have h₁ : (skipBlank cs).length ≤ cs.length := skipBlank_length_le cs
    have h₂ := congrArg List.length (List.takeWhile_append_dropWhile (p := isNameChar) (l := ds))
    have h₃ : 0 < (ds.takeWhile isNameChar).length := by
      cases hw : ds.takeWhile isNameChar with
      | nil => simp [hw] at h
      | cons c w => simp
    simp only [List.length_append] at h₂
    show (ds.dropWhile isNameChar).length < cs.length
    have h₄ : ds.length = (skipBlank cs).length := rfl
    omega⟩

/-- Reads the further words of a name, each after a dot. -/
def readWords (cs : List Char) :
    Except Fault { r : List Char × List Char // r.2.length ≤ cs.length } :=
  match cs with
  | '.' :: ds => do
    let ⟨(word, ds₁), h₁⟩ ← readWord ds
    have : ds₁.length < ds.length + 1 := Nat.lt_succ_of_lt h₁
    let ⟨(words, ds₂), h₂⟩ ← readWords ds₁
    return ⟨('.' :: word ++ words, ds₂), Nat.le_of_lt (Nat.lt_of_le_of_lt h₂ this)⟩
  | cs => return ⟨([], cs), Nat.le_refl _⟩
termination_by cs.length
decreasing_by exact this

/-- Reads a dotted name. -/
def readName (cs : List Char) : Step String cs := do
  let ⟨(word, ds₁), h₁⟩ ← readWord cs
  let ⟨(words, ds₂), h₂⟩ ← readWords ds₁
  return ⟨(String.ofList (word ++ words), ds₂), Nat.lt_of_le_of_lt h₂ h₁⟩

/-- Whether a keyword may end here: a blank follows, and then the start of a type. -/
def endsKeyword : List Char → Bool
  | [] => false
  | c :: rest => isBlank c && (skipBlank rest).head?.any isTypeStart

/-- Reads the variance in front of an argument's type. -/
def readVariance (cs : List Char) : Variance × List Char :=
  match skipBlank cs with
  | 'i' :: 'n' :: rest =>
    if endsKeyword rest then (.contravariant, rest) else (.invariant, 'i' :: 'n' :: rest)
  | 'o' :: 'u' :: 't' :: rest =>
    if endsKeyword rest then (.covariant, rest) else (.invariant, 'o' :: 'u' :: 't' :: rest)
  | ds => (.invariant, ds)

theorem readVariance_length_le (cs : List Char) : (readVariance cs).2.length ≤ cs.length := by
  have h := skipBlank_length_le cs
  unfold readVariance
  split
  · rename_i rest heq
    rw [heq] at h
    simp only [List.length_cons] at h
    split <;> simp only [List.length_cons] <;> omega
  · rename_i rest heq
    rw [heq] at h
    simp only [List.length_cons] at h
    split <;> simp only [List.length_cons] <;> omega
  · exact h

/-- Reads the question mark of a nullable reference, if there is one. -/
def readNullable (cs : List Char) : Bool × List Char :=
  match takeMark '?' cs with
  | some rest => (true, rest)
  | none => (false, cs)

theorem readNullable_length_le (cs : List Char) : (readNullable cs).2.length ≤ cs.length := by
  unfold readNullable
  split
  · exact Nat.le_of_lt (length_lt_of_takeMark ‹_›)
  · exact Nat.le_refl _

/-! ### Nested references -/

mutual

/-- Reads a type reference. -/
def readType (cs : List Char) : Step TypeRef cs := do
  let ⟨(name, ds₁), h₁⟩ ← readName cs
  match h₂ : takeMark '<' ds₁ with
  | none =>
    let nullable := readNullable ds₁
    return ⟨(mk name [] nullable.1, nullable.2),
      Nat.lt_of_le_of_lt (readNullable_length_le ds₁) h₁⟩
  | some ds₂ =>
    have h₂' : ds₂.length < cs.length := Nat.lt_trans (length_lt_of_takeMark h₂) h₁
    let ⟨(arguments, ds₃), h₃⟩ ← readArguments ds₂
    let nullable := readNullable ds₃
    return ⟨(mk name arguments nullable.1, nullable.2),
      Nat.lt_of_le_of_lt (readNullable_length_le ds₃) (Nat.lt_trans h₃ h₂')⟩
termination_by (cs.length, 0)

/-- Reads an argument. -/
def readArgument (cs : List Char) : Step TypeArgument cs :=
  match h₁ : takeMark '*' cs with
  | some ds => return ⟨(.star, ds), length_lt_of_takeMark h₁⟩
  | none => do
    have h₂ := readVariance_length_le cs
    let ⟨(ref, ds), h₃⟩ ← readType (readVariance cs).2
    return ⟨(.type (readVariance cs).1 ref, ds), Nat.lt_of_lt_of_le h₃ h₂⟩
termination_by (cs.length, 1)
decreasing_by
  exact (Nat.lt_or_eq_of_le h₂).elim (fun h => Prod.Lex.left _ _ h)
    (fun h => h ▸ Prod.Lex.right _ Nat.zero_lt_one)

/-- Reads the arguments after the opening bracket, and the closing bracket. -/
def readArguments (cs : List Char) : Step (List TypeArgument) cs := do
  let ⟨(argument, ds₁), h₁⟩ ← readArgument cs
  match h₂ : takeMark ',' ds₁ with
  | some ds₂ =>
    have h₂' : ds₂.length < cs.length := Nat.lt_trans (length_lt_of_takeMark h₂) h₁
    let ⟨(arguments, ds₃), h₃⟩ ← readArguments ds₂
    return ⟨(argument :: arguments, ds₃), Nat.lt_trans h₃ h₂'⟩
  | none =>
    match h₃ : takeMark '>' ds₁ with
    | some ds₂ => return ⟨([argument], ds₂), Nat.lt_trans (length_lt_of_takeMark h₃) h₁⟩
    | none => throw .expectedSeparator
termination_by (cs.length, 2)

end

/-- Accepts what was read of `text` if nothing but blanks is left. -/
def finish (text : String) {α : Type} (read : Step α text.toList) : Except Malformed α :=
  match read with
  | .error fault => .error ⟨text, fault⟩
  | .ok ⟨(value, rest), _⟩ =>
    match skipBlank rest with
    | [] => .ok value
    | c :: ds => .error ⟨text, .unexpected c (text.toList.length - (ds.length + 1))⟩

/-- Reads a text as a type reference. -/
def parse (text : String) : Except Malformed TypeRef :=
  finish text (readType text.toList)

end TypeRef

/-- Reads a text as a type argument. -/
def TypeArgument.parse (text : String) : Except TypeRef.Malformed TypeArgument :=
  TypeRef.finish text (TypeRef.readArgument text.toList)

end ModelForge
