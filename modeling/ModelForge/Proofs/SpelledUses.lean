/-
What is written stands for what it was made of.

Spelling settles whether a class is written by its simple names or in full, and nothing else:
names, types and the order of things stay as they were put together.

* `ClassUse.Refers`, `TypeUse.type` — the class and the type that a written form stands for;
* `Naming.Gives` — whatever has been claimed before, a computation comes to something with a
  property;
* `Imports.gives_reference`, `Imports.gives_render` — classes and types are written as
  themselves;
* `Expr.named`, `Expr.gives_spell` — a written expression is the one that is spelled, with
  another form of its classes;
* `FailureUnion.gives_spell`, `Factory.gives_spell`, `DataClass.gives_spell` — so a written union
  has the variants, a written factory the locals, arguments and failures, and a written class the
  factories of what is spelled.
-/
import Mathlib.Data.List.Forall2
import ModelForge.Proofs.Evaluation
import ModelForge.Proofs.WrittenDeclarations

namespace ModelForge.Kotlin

/-! ### Written forms -/

/-- The class is written for this one, by its simple names or in full. -/
def ClassUse.Refers (c : ClassUse) (t : TypeName) : Prop :=
  c.package = t.package ∧ c.simpleNames = t.simpleNames

instance (c : ClassUse) (t : TypeName) : Decidable (c.Refers t) :=
  inferInstanceAs (Decidable (_ ∧ _))

namespace TypeUse

mutual

/-- The type that is written. -/
def type : TypeUse → TypeName
  | mk use arguments nullable => .mk use.package use.simpleNames (typesOf arguments) nullable

/-- The type of an argument, `none` for a star. -/
def typeOf : Option TypeUse → Option TypeName
  | none => none
  | some t => some (type t)

/-- The types of the arguments. -/
def typesOf : List (Option TypeUse) → List (Option TypeName)
  | [] => []
  | a :: as => typeOf a :: typesOf as

end

end TypeUse

/-! ### Computations -/

namespace Naming

variable {α β : Type} {P : α → Prop} {Q : β → Prop}

/-- Whatever has been claimed before, the computation comes to something with this property. -/
def Gives (P : α → Prop) (r : Naming α) : Prop :=
  ∀ i : Imports, P (r.run i).1

theorem gives_pure {a : α} (h : P a) : Gives P (pure a) :=
  fun _ => h

theorem Gives.bind {r : Naming α} {f : α → Naming β} (h : Gives P r)
    (hf : ∀ a, P a → Gives Q (f a)) : Gives Q (r >>= f) :=
  fun i => hf _ (h i) _

/-- What comes after a computation that only claims names. -/
theorem gives_after {r : Naming α} {f : α → Naming β} (hf : ∀ a, Gives Q (f a)) :
    Gives Q (r >>= f) :=
  fun _ => hf _ _

theorem gives_mapM {R : α → β → Prop} {f : α → Naming β} (hf : ∀ a, Gives (R a) (f a))
    (as : List α) : Gives (List.Forall₂ R as) (as.mapM f) := by
  induction as with
  | nil => exact gives_pure .nil
  | cons a as ih =>
    rw [List.mapM_cons]
    exact (hf a).bind fun b hb => ih.bind fun bs hbs => gives_pure (.cons hb hbs)

theorem gives_optional {R : α → β → Prop} {f : α → Naming β} (hf : ∀ a, Gives (R a) (f a))
    (a? : Option α) : Gives (Option.Rel R a?) (spellOptional f a?) := by
  cases a? with
  | none => exact gives_pure .none
  | some a => exact (hf a).bind fun b hb => gives_pure (.some hb)

end Naming

open Naming

/-! ### Classes and types -/

namespace Imports

theorem gives_reference (t : TypeName) : Gives (·.Refers t) (reference t) := by
  intro i
  rcases unclaimed_or_claims t with hunclaimed | ⟨first, others, hnames, hpackage⟩
  · rw [run_reference_unclaimed hunclaimed]
    exact ⟨rfl, rfl⟩
  · -- if another class has claimed the name, the class is written in full
    rw [run_reference hnames hpackage]
    cases i.claimed.lookup first with
    | some owner => exact ⟨rfl, rfl⟩
    | none => exact ⟨rfl, rfl⟩

mutual

theorem gives_render : ∀ t : TypeName, Gives (fun use => use.type = t) (render t)
  | .mk package simpleNames arguments nullable => by
    rw [render]
    refine (gives_reference _).bind fun use huse => ?_
    refine (gives_renderList arguments).bind fun as has => gives_pure ?_
    rw [TypeUse.type, has, huse.1, huse.2]
    rfl

theorem gives_renderArgument : ∀ a : Option TypeName,
    Gives (fun use => TypeUse.typeOf use = a) (renderArgument a)
  | none => by
    rw [renderArgument]
    exact gives_pure rfl
  | some t => by
    rw [renderArgument]
    exact (gives_render t).bind fun use huse => gives_pure (congrArg some huse)

theorem gives_renderList : ∀ as : List (Option TypeName),
    Gives (fun uses => TypeUse.typesOf uses = as) (renderList as)
  | [] => by
    rw [renderList]
    exact gives_pure rfl
  | a :: as => by
    rw [renderList]
    refine (gives_renderArgument a).bind fun use huse => ?_
    refine (gives_renderList as).bind fun uses huses => gives_pure ?_
    rw [TypeUse.typesOf, huse, huses]

end

end Imports

open Imports

/-! ### Unions -/

/-- The variant is written with its name, its payload and its union. -/
structure Variant.Spells (v : Variant TypeName TypeName) (w : Variant ClassUse TypeUse) : Prop where
  name : w.name = v.name
  payload : w.payload.type = v.payload
  parent : w.parent.Refers v.parent

theorem Variant.gives_spell (v : Variant TypeName TypeName) : Gives v.Spells v.spell :=
  (gives_reference v.parent).bind fun _ hparent => (gives_render v.payload).bind fun _ hpayload =>
    gives_pure ⟨rfl, hpayload, hparent⟩

/-- The union is written with its name, its variants in order, and the smaller union. -/
structure FailureUnion.Spells (u : FailureUnion TypeName TypeName)
    (w : FailureUnion ClassUse TypeUse) : Prop where
  name : w.name.Refers u.name
  variants : List.Forall₂ Variant.Spells u.variants w.variants
  required : Option.Rel (fun t c => c.Refers t) u.required w.required

theorem FailureUnion.gives_spell (u : FailureUnion TypeName TypeName) :
    Gives u.Spells u.spell := by
  refine gives_after fun _ => gives_after fun _ => ?_
  refine (gives_reference u.name).bind fun name hname => gives_after fun _ => ?_
  refine (gives_mapM Variant.gives_spell u.variants).bind fun variants hvariants => ?_
  refine (gives_optional gives_reference u.required).bind fun required hrequired => ?_
  exact gives_pure ⟨hname, hvariants, hrequired⟩

/-! ### Expressions -/

/-- The expression with the dotted names of its classes. -/
def Expr.named {C : Type} [ClassName C] : Expr C → Expr String
  | parameter name => parameter name
  | held name => held name
  | it => it
  | null => null
  | object c => object (ClassName.dottedName c)
  | wrap c e => wrap (ClassName.dottedName c) e.named
  | right either e => right (ClassName.dottedName either) e.named
  | make wrapper nullable e => make (ClassName.dottedName wrapper) nullable e.named
  | letIt receiver block => letIt receiver.named block.named
  | map receiver safe name block => map receiver.named safe name block.named
  | fold receiver safe absent present => fold receiver.named safe absent.named present.named
  | validate receiver safe => validate receiver.named safe
  | flatMap receiver block => flatMap receiver.named block.named
  | build receiver safe => build receiver.named safe
  | content receiver => content receiver.named
  | orElse value fallback => orElse value.named fallback.named

theorem ClassUse.Refers.dottedName_eq {c : ClassUse} {t : TypeName} (h : c.Refers t) :
    ClassName.dottedName c = ClassName.dottedName t := by
  show qualify c.package _ = qualify t.package _
  rw [h.1, h.2]

theorem Expr.gives_spell (e : Expr TypeName) : Gives (fun w => w.named = e.named) e.spell := by
  induction e with
  | parameter | held | it | null => exact gives_pure rfl
  | object c =>
    refine (gives_reference c).bind fun use huse => gives_pure ?_
    rw [named, named, huse.dottedName_eq]
  | wrap c e ih | right c e ih | make c nullable e ih =>
    refine (gives_reference c).bind fun use huse => ih.bind fun w hw => gives_pure ?_
    rw [named, named, huse.dottedName_eq, hw]
  | letIt a b iha ihb | map a safe name b iha ihb | flatMap a b iha ihb | orElse a b iha ihb =>
    refine iha.bind fun v hv => ihb.bind fun w hw => gives_pure ?_
    rw [named, named, hv, hw]
  | fold a safe b c iha ihb ihc =>
    refine iha.bind fun u hu => ihb.bind fun v hv => ihc.bind fun w hw => gives_pure ?_
    rw [named, named, hu, hv, hw]
  | validate e safe ih =>
    refine gives_after fun _ => ih.bind fun w hw => gives_pure ?_
    rw [named, named, hw]
  | build e safe ih | content e ih =>
    refine ih.bind fun w hw => gives_pure ?_
    rw [named, named, hw]

/-! ### Factories -/

/-- The local is written with its name and its value. -/
structure Local.Spells (l : Local TypeName TypeName) (w : Local ClassUse TypeUse) : Prop where
  name : w.name = l.name
  value : w.value.named = l.value.named

theorem Local.gives_spell (l : Local TypeName TypeName) : Gives l.Spells l.spell :=
  l.value.gives_spell.bind fun _ hvalue => gives_after fun _ => gives_pure ⟨rfl, hvalue⟩

/-- The argument is written with its name and its value. -/
structure Argument.Spells (a : Argument TypeName) (w : Argument ClassUse) : Prop where
  name : w.name = a.name
  value : w.value.named = a.value.named

theorem Argument.gives_spell (a : Argument TypeName) : Gives a.Spells a.spell :=
  a.value.gives_spell.bind fun _ hvalue => gives_pure ⟨rfl, hvalue⟩

/-- The condition is written for its result and its side. -/
structure Condition.Spells (c : Condition TypeName) (w : Condition ClassUse) : Prop where
  result : w.result.named = c.result.named
  side : w.side = c.side

theorem Condition.gives_spell (c : Condition TypeName) : Gives c.Spells c.spell :=
  c.result.gives_spell.bind fun _ hresult => gives_pure ⟨hresult, rfl⟩

/-- The case is written with its condition, and puts its value into the same variant. -/
structure FailureCase.Spells (c : FailureCase TypeName) (w : FailureCase ClassUse) : Prop where
  condition : c.condition.Spells w.condition
  variant : w.variant = c.variant
  value : w.value.named = c.value.named

theorem FailureCase.gives_spell (c : FailureCase TypeName) : Gives c.Spells c.spell :=
  c.condition.gives_spell.bind fun _ hcondition => c.value.gives_spell.bind fun _ hvalue =>
    gives_pure ⟨hcondition, rfl, hvalue⟩

/-- The failure branch is written with its conditions, its unions and its cases. -/
structure FailureBranch.Spells (b : FailureBranch TypeName TypeName)
    (w : FailureBranch ClassUse TypeUse) : Prop where
  conditions : List.Forall₂ Condition.Spells b.conditions w.conditions
  variants : w.variants.Refers b.variants
  union : w.union.type = b.union
  cases : List.Forall₂ FailureCase.Spells b.cases w.cases

theorem FailureBranch.gives_spell (b : FailureBranch TypeName TypeName) :
    Gives b.Spells b.spell := by
  refine (gives_mapM Condition.gives_spell b.conditions).bind fun conditions hconditions => ?_
  refine (gives_reference b.variants).bind fun variants hvariants => ?_
  refine (gives_render b.union).bind fun union hunion => gives_after fun _ => ?_
  refine (gives_mapM FailureCase.gives_spell b.cases).bind fun cases hcases => ?_
  exact gives_pure ⟨hconditions, hvariants, hunion, hcases⟩

/-- The factory is written with its name, its parameters and its result, its locals, what it
constructs and its failure branch. -/
structure Factory.Spells (f : Factory TypeName TypeName) (w : Factory ClassUse TypeUse) : Prop where
  name : w.name = f.name
  parameters : List.Forall₂ (fun p q => q.name = p.name) f.parameters w.parameters
  result : w.result.type = f.result
  either : w.either.Refers f.either
  locals : List.Forall₂ Local.Spells f.locals w.locals
  constructed : w.constructed.Refers f.constructed
  arguments : List.Forall₂ Argument.Spells f.arguments w.arguments
  failure : Option.Rel FailureBranch.Spells f.failure w.failure

theorem Factory.gives_spell (f : Factory TypeName TypeName) : Gives f.Spells f.spell := by
  have hparameter : ∀ p : Parameter TypeName, Gives (fun q => q.name = p.name) p.spell :=
    fun p => gives_after fun _ => gives_pure rfl
  refine gives_after fun _ => ?_
  refine (gives_mapM hparameter f.parameters).bind fun parameters hparameters => ?_
  refine (gives_render f.result).bind fun result hresult => ?_
  refine (gives_reference f.either).bind fun either heither => ?_
  refine (gives_mapM Local.gives_spell f.locals).bind fun locals hlocals => ?_
  refine (gives_reference f.constructed).bind fun constructed hconstructed => ?_
  refine (gives_mapM Argument.gives_spell f.arguments).bind fun arguments harguments => ?_
  refine (gives_optional FailureBranch.gives_spell f.failure).bind fun failure hfailure => ?_
  exact gives_pure
    ⟨rfl, hparameters, hresult, heither, hlocals, hconstructed, harguments, hfailure⟩

theorem DataClass.gives_spell (d : DataClass TypeName TypeName) :
    Gives (fun w => List.Forall₂ Factory.Spells d.factories w.factories) d.spell := by
  refine gives_after fun _ => gives_after fun _ => gives_after fun _ => ?_
  exact (gives_mapM Factory.gives_spell d.factories).bind fun _ h => gives_pure h

/-! ### Files -/

variable {f : File}

theorem File.spelled_dataClass {d : DataClass TypeName TypeName} (h : f.content = .dataClass d) :
    ∃ w, f.spelled.1 = .dataClass w ∧ List.Forall₂ Factory.Spells d.factories w.factories := by
  refine ⟨(d.spell.run (.start f.package)).1, ?_, d.gives_spell _⟩
  unfold File.spelled
  rw [h]
  rfl

end ModelForge.Kotlin
