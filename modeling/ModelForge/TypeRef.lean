/-
Type references.

A `TypeRef` is a type as it is written in a source model: a qualified name (or the bare
name of a type parameter), the arguments it is applied to, and whether it is nullable.
An argument is a star projection or a type with a use-site variance.

* `TypeRef.display` writes a reference: `kotlin.Map<in A, *>?`;
* `TypeRef.substitute` replaces the names of type parameters by types, all at once, and
  keeps both the use's nullability and the bound type's;
* `TypeRef.argument?` is the type passed at an index, where one is passed.

Three functions on the two mutual types appear throughout: one on references, one on
arguments and one on lists of arguments.
-/
namespace ModelForge

/-- The use-site variance of a type argument. -/
inductive Variance
  | invariant
  | contravariant
  | covariant
deriving DecidableEq, Repr, Inhabited

namespace Variance

/-- The keyword in front of an argument, with the space that ends it. -/
def keyword : Variance → String
  | invariant => ""
  | contravariant => "in "
  | covariant => "out "

end Variance

mutual

/-- A type as written in a source model. -/
inductive TypeRef
  | mk (name : String) (arguments : List TypeArgument) (nullable : Bool)

/-- An argument of a type reference. -/
inductive TypeArgument
  | star
  | type (variance : Variance) (ref : TypeRef)

end

deriving instance Repr for TypeRef, TypeArgument

namespace TypeRef

/-- The name that is referred to. -/
def name : TypeRef → String
  | mk name _ _ => name

/-- The arguments that are passed. -/
def arguments : TypeRef → List TypeArgument
  | mk _ arguments _ => arguments

/-- Whether the reference is written nullable. -/
def nullable : TypeRef → Bool
  | mk _ _ nullable => nullable

@[simp] theorem name_mk (n : String) (as : List TypeArgument) (b : Bool) :
    (mk n as b).name = n := rfl

@[simp] theorem arguments_mk (n : String) (as : List TypeArgument) (b : Bool) :
    (mk n as b).arguments = as := rfl

@[simp] theorem nullable_mk (n : String) (as : List TypeArgument) (b : Bool) :
    (mk n as b).nullable = b := rfl

@[ext] theorem ext : ∀ {s t : TypeRef}, s.name = t.name → s.arguments = t.arguments →
    s.nullable = t.nullable → s = t
  | mk _ _ _, mk _ _ _, rfl, rfl, rfl => rfl

instance : Inhabited TypeRef := ⟨mk "" [] false⟩

/-- The reference to a bare name. -/
def named (name : String) : TypeRef :=
  mk name [] false

/-- The reference with its nullability replaced. -/
def withNullable (t : TypeRef) (nullable : Bool) : TypeRef :=
  mk t.name t.arguments nullable

/-- The reference, nullable also if `nullable` holds. -/
def orNullable (t : TypeRef) (nullable : Bool) : TypeRef :=
  t.withNullable (t.nullable || nullable)

@[simp] theorem name_orNullable (t : TypeRef) (b : Bool) : (t.orNullable b).name = t.name := rfl

@[simp] theorem arguments_orNullable (t : TypeRef) (b : Bool) :
    (t.orNullable b).arguments = t.arguments := rfl

@[simp] theorem nullable_orNullable (t : TypeRef) (b : Bool) :
    (t.orNullable b).nullable = (t.nullable || b) := rfl

/-- The last segment of a dotted name. -/
def lastSegment (name : String) : String :=
  String.ofList ((name.toList.reverse.takeWhile (· != '.')).reverse)

/-- The last segment of the name. -/
def simpleName (t : TypeRef) : String :=
  lastSegment t.name

/-- The type passed as argument `i`, if there is one and it is no star projection. -/
def argument? (t : TypeRef) (i : Nat) : Option TypeRef :=
  match t.arguments[i]? with
  | some (.type _ ref) => some ref
  | _ => none

/-! ### Display -/

mutual

/-- The written form of a reference. -/
def display : TypeRef → String
  | mk name arguments nullable =>
    name ++ displayList arguments ++ (if nullable then "?" else "")

/-- The written form of an argument. -/
def displayArgument : TypeArgument → String
  | .star => "*"
  | .type variance ref => variance.keyword ++ ref.display

/-- The written form of an argument list, empty if there are no arguments. -/
def displayList : List TypeArgument → String
  | [] => ""
  | a :: as => "<" ++ displayArgument a ++ displayRest as

/-- The rest of an argument list: a comma before each argument, then the closing bracket. -/
def displayRest : List TypeArgument → String
  | [] => ">"
  | a :: as => ", " ++ displayArgument a ++ displayRest as

end

/-! ### Substitution -/

/-- What each type parameter stands for, `none` for a name that is no parameter. -/
abbrev Bindings := String → Option TypeRef

/-- The bindings of a list of pairs, of which the last one for a name counts. -/
def Bindings.ofList : List (String × TypeRef) → Bindings
  | [], _ => none
  | (parameter, type) :: rest, name =>
    match ofList rest name with
    | some bound => some bound
    | none => if parameter = name then some type else none

mutual

/-- The reference with the bound names replaced. A name that is applied to arguments is no
type parameter and stays. -/
def substitute (bindings : Bindings) : TypeRef → TypeRef
  | mk name [] nullable =>
    match bindings name with
    | some bound => bound.orNullable nullable
    | none => mk name [] nullable
  | mk name (a :: as) nullable =>
    mk name (substituteArgument bindings a :: substituteList bindings as) nullable

/-- The argument with the bound names replaced. -/
def substituteArgument (bindings : Bindings) : TypeArgument → TypeArgument
  | .star => .star
  | .type variance ref => .type variance (substitute bindings ref)

/-- The arguments with the bound names replaced. -/
def substituteList (bindings : Bindings) : List TypeArgument → List TypeArgument
  | [] => []
  | a :: as => substituteArgument bindings a :: substituteList bindings as

end

/-! ### Equality -/

mutual

/-- Equality of references is decided part by part. -/
def decEq : (s t : TypeRef) → Decidable (s = t)
  | mk n as b, mk n' as' b' =>
    match decEqList as as' with
    | isTrue h =>
      if hn : n = n' ∧ b = b' then isTrue (by rw [hn.1, hn.2, h])
      else isFalse (by rintro ⟨⟩; exact hn ⟨rfl, rfl⟩)
    | isFalse h => isFalse (by rintro ⟨⟩; exact h rfl)

/-- Equality of arguments. -/
def decEqArgument : (s t : TypeArgument) → Decidable (s = t)
  | .star, .star => isTrue rfl
  | .star, .type _ _ => isFalse (by rintro ⟨⟩)
  | .type _ _, .star => isFalse (by rintro ⟨⟩)
  | .type v s, .type v' t =>
    match decEq s t with
    | isTrue h =>
      if hv : v = v' then isTrue (by rw [hv, h]) else isFalse (by rintro ⟨⟩; exact hv rfl)
    | isFalse h => isFalse (by rintro ⟨⟩; exact h rfl)

/-- Equality of argument lists. -/
def decEqList : (s t : List TypeArgument) → Decidable (s = t)
  | [], [] => isTrue rfl
  | [], _ :: _ => isFalse (by rintro ⟨⟩)
  | _ :: _, [] => isFalse (by rintro ⟨⟩)
  | a :: as, b :: bs =>
    match decEqArgument a b with
    | isFalse h => isFalse (by rintro ⟨⟩; exact h rfl)
    | isTrue h =>
      match decEqList as bs with
      | isTrue h' => isTrue (by rw [h, h'])
      | isFalse h' => isFalse (by rintro ⟨⟩; exact h' rfl)

end

instance : DecidableEq TypeRef := decEq

end TypeRef

instance : DecidableEq TypeArgument := TypeRef.decEqArgument

end ModelForge
