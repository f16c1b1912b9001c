/-
Where the names in written code lead.

Code names classes and functions by words, and a word is looked for among the variables before it
is looked for among classes: a property that is called like a class takes the place of the class.
Only the first word of a dotted name is looked for in this way, and where a name of one word is
called with arguments, a variable counts only if it can be called, which its type decides.

* `Expr.lookups`, `Factory.lookups` — the names of classes and functions in written code, each with
  the variables in scope;
* `Factory.Resolves` — all these names lead to what they are written for;
* `Factory.call` — what a written factory returns, or the fault that a name leads elsewhere;
* `Expr.eval_named` — the value of an expression depends on the dotted names of its classes only;
* `Factory.run_of_spells` — so a factory whose names lead to what they are written for returns what
  the factory returns that it was made of.
-/
import ModelForge.Proofs.SpelledUses

namespace ModelForge.Kotlin

/-! ### Names in written code -/

/-- What a name of written code is looked for as. -/
inductive Lookup
  /-- a class, before a dot or as a single object -/
  | qualifier (c : ClassUse)
  /-- a class, before the arguments of its constructor -/
  | constructor (c : ClassUse)
  /-- a function that is not called on a value -/
  | function (name : String)
deriving DecidableEq, Repr

/-- What is found around a function before classes and functions of other files. -/
structure Surroundings where
  /-- the values that are visible there, by name -/
  values : List String
  /-- whether a call by this name goes to a value that can be called, or to another function -/
  calls : String → Bool

/-- The words of a class as it is written. -/
def ClassUse.dottedWords (c : ClassUse) : List String :=
  dotted c.display

/-- Whether the first word of a class is the name of a variable. -/
def ClassUse.startsWithAny (c : ClassUse) (names : List String) : Bool :=
  c.dottedWords.head?.any names.contains

/-- Whether the name leads elsewhere, where these variables are in scope. -/
def Lookup.isHidden (around : Surroundings) (scope : List String) : Lookup → Bool
  | qualifier c => c.startsWithAny (scope ++ around.values)
  | constructor c =>
    match c.dottedWords with
    | [name] => around.calls name
    | _ => c.startsWithAny (scope ++ around.values)
  | function name => around.calls name

/-- The names of classes in an expression, each with the variables in scope. -/
def Expr.lookups : Expr ClassUse → List String → List (List String × Lookup)
  | parameter _, _ => []
  | held _, _ => []
  | it, _ => []
  | null, _ => []
  | object c, s => [(s, .qualifier c)]
  | wrap c e, s => (s, .constructor c) :: e.lookups s
  | right either e, s => (s, .qualifier either) :: e.lookups s
  | make wrapper _ e, s => (s, .qualifier wrapper) :: e.lookups s
  | letIt receiver block, s => receiver.lookups s ++ block.lookups ("it" :: s)
  | map receiver _ name block, s => receiver.lookups s ++ block.lookups (name.getD "it" :: s)
  | fold receiver _ absent present, s =>
    receiver.lookups s ++ absent.lookups s ++ present.lookups ("it" :: s)
  | validate receiver _, s => receiver.lookups s
  | flatMap receiver block, s => receiver.lookups s ++ block.lookups ("it" :: s)
  | build receiver _, s => receiver.lookups s
  | content receiver, s => receiver.lookups s
  | orElse value fallback, s => value.lookups s ++ fallback.lookups s

/-- The names of classes in the values of locals, each of which sees the locals before it. -/
def lookupsOfLocals : List (Local ClassUse TypeUse) → List String → List (List String × Lookup)
  | [], _ => []
  | l :: ls, s => l.value.lookups s ++ lookupsOfLocals ls (l.name :: s)

/-- The names in a failure case: its failure is added to a list that is being built. -/
def FailureCase.lookups (c : FailureCase ClassUse) (variants : ClassUse) (s : List String) :
    List (List String × Lookup) :=
  c.condition.result.lookups s ++ (s, .function "add") :: (s, .qualifier variants) ::
    c.value.lookups s

namespace Factory

/-- The names in the construction of the class as a success. -/
def lookupsOfSuccess (f : Factory ClassUse TypeUse) (s : List String) :
    List (List String × Lookup) :=
  (s, .qualifier f.either) :: (s, .constructor f.constructed) ::
    f.arguments.flatMap (·.value.lookups s)

/-- The names in what is returned. -/
def lookupsOfOutcome (f : Factory ClassUse TypeUse) (s : List String) :
    List (List String × Lookup) :=
  match f.failure with
  | none => f.lookupsOfSuccess s
  | some b =>
    b.conditions.flatMap (·.result.lookups s) ++ f.lookupsOfSuccess s ++
      (s, .qualifier f.either) :: (s, .function "buildList") ::
      b.cases.flatMap (·.lookups b.variants s)

/-- The names of classes and functions in a factory, each with the variables in scope: the
parameters, then one local after the other. In the places of types only classes are looked for. -/
def lookups (f : Factory ClassUse TypeUse) : List (List String × Lookup) :=
  let parameters := f.parameters.map (·.name)
  lookupsOfLocals f.locals parameters ++
    f.lookupsOfOutcome ((f.locals.map (·.name)).reverse ++ parameters)

/-- All names of classes and functions lead to what they are written for. -/
def Resolves (f : Factory ClassUse TypeUse) (around : Surroundings) : Prop :=
  ∀ x ∈ f.lookups, x.2.isHidden around x.1 = false

instance (f : Factory ClassUse TypeUse) (around : Surroundings) : Decidable (f.Resolves around) :=
  inferInstanceAs (Decidable (∀ x ∈ f.lookups, _))

variable {α : Type}

/-- What a written factory returns for the values that are passed, in the order of its parameters,
if its names lead to what they are written for. -/
def call (f : Factory ClassUse TypeUse) (around : Surroundings) (lib : Library α)
    (passed : List (Value α)) : Except Fault (Value α) :=
  if f.Resolves around then f.run lib passed else .error .hidden

end Factory

/-! ### Values of written code -/

instance : ClassName String :=
  ⟨id⟩

section

variable {α C : Type} [ClassName C] {lib : Library α} {s : Variables α}

theorem ofClass_named {β : Type} (c : C) (expected : TypeName) (b : β) :
    ofClass (ClassName.dottedName c) expected b = ofClass c expected b :=
  rfl

/-- An expression has the value that it has with the dotted names of its classes. -/
theorem Expr.eval_named (e : Expr C) (s : Variables α) : e.named.eval lib s = e.eval lib s := by
  induction e generalizing s with
  | parameter | held | it | null | object => rfl
  | wrap c e ih | right c e ih => simp only [named, eval, ih, ofClass_named]
  | make c nullable e ih =>
    rw [named, eval, eval, ih]
    rfl
  | validate e safe ih | build e safe ih | content e ih => simp only [named, eval, ih]
  | letIt a b iha ihb | map a safe name b iha ihb | flatMap a b iha ihb | orElse a b iha ihb =>
    simp only [named, eval, iha, ihb]
  | fold a safe b c iha ihb ihc => simp only [named, eval, iha, ihb, ihc]

end

variable {α : Type} {lib : Library α} {s : Variables α}

theorem Expr.eval_eq_of_named_eq {e : Expr TypeName} {w : Expr ClassUse} (h : w.named = e.named)
    (s : Variables α) : w.eval lib s = e.eval lib s := by
  rw [← w.eval_named, ← e.eval_named, h]

theorem ofClass_of_refers {c : ClassUse} {t : TypeName} (h : c.Refers t) {β : Type}
    (expected : TypeName) (b : β) : ofClass c expected b = ofClass t expected b := by
  rw [ofClass, ofClass, h.dottedName_eq]

theorem bindLocals_of_spells {ls : List (Local TypeName TypeName)}
    {ws : List (Local ClassUse TypeUse)} (h : List.Forall₂ Local.Spells ls ws)
    (s : Variables α) : bindLocals lib ws s = bindLocals lib ls s := by
  induction h generalizing s with
  | nil => rfl
  | cons h _ ih => simp only [bindLocals, Expr.eval_eq_of_named_eq h.value, h.name, ih]

theorem evalArguments_of_spells {as : List (Argument TypeName)} {ws : List (Argument ClassUse)}
    (h : List.Forall₂ Argument.Spells as ws) (s : Variables α) :
    evalArguments lib s ws = evalArguments lib s as := by
  induction h with
  | nil => rfl
  | cons h _ ih => simp only [evalArguments, Expr.eval_eq_of_named_eq h.value, h.name, ih]

theorem Condition.Spells.holds_eq {c : Condition TypeName} {w : Condition ClassUse}
    (h : c.Spells w) {either : TypeName} {use : ClassUse} (hclass : use.Refers either)
    (s : Variables α) : w.holds use lib s = c.holds either lib s := by
  simp only [Condition.holds, Expr.eval_eq_of_named_eq h.result, h.side, ofClass_of_refers hclass]

theorem allHold_of_spells {cs : List (Condition TypeName)} {ws : List (Condition ClassUse)}
    (h : List.Forall₂ Condition.Spells cs ws) {either : TypeName} {use : ClassUse}
    (hclass : use.Refers either) (s : Variables α) :
    allHold use lib s ws = allHold either lib s cs := by
  induction h with
  | nil => rfl
  | cons h _ ih => simp only [allHold, h.holds_eq hclass, ih]

theorem gatherFailures_of_spells {cs : List (FailureCase TypeName)}
    {ws : List (FailureCase ClassUse)} (h : List.Forall₂ FailureCase.Spells cs ws)
    {either variants : TypeName} {use use' : ClassUse} (hclass : use.Refers either)
    (hvariants : use'.Refers variants) (s : Variables α) :
    gatherFailures use use' lib s ws = gatherFailures either variants lib s cs := by
  induction h with
  | nil => rfl
  | cons h _ ih =>
    simp only [gatherFailures, h.condition.holds_eq hclass,
      Expr.eval_eq_of_named_eq h.value, h.variant, hvariants.dottedName_eq, ih]

namespace Factory

variable {f : Factory TypeName TypeName} {w : Factory ClassUse TypeUse}

theorem success_of_spells (h : f.Spells w) (s : Variables α) :
    w.success lib s = f.success lib s := by
  simp only [success, evalArguments_of_spells h.arguments, h.constructed.dottedName_eq,
    ofClass_of_refers h.either]

theorem outcome_of_spells (h : f.Spells w) (s : Variables α) :
    w.outcome lib s = f.outcome lib s := by
  have hfailure := h.failure
  unfold outcome
  generalize f.failure = b, w.failure = b' at hfailure
  cases hfailure with
  | none => exact success_of_spells h s
  | some hb =>
    simp only [allHold_of_spells hb.conditions h.either, success_of_spells h,
      gatherFailures_of_spells hb.cases h.either hb.variants, ofClass_of_refers h.either]

/-- A written factory returns what the factory returns that it was made of. -/
theorem run_of_spells (h : f.Spells w) (lib : Library α) (passed : List (Value α)) :
    w.run lib passed = f.run lib passed := by
  have hnames : w.parameters.map (·.name) = f.parameters.map (·.name) := by
    have heq := h.parameters
    generalize f.parameters = ps, w.parameters = qs at heq
    induction heq with
    | nil => rfl
    | cons h _ ih => rw [List.map_cons, List.map_cons, h, ih]
  simp only [run, hnames, bindLocals_of_spells h.locals, outcome_of_spells h]

end Factory

end ModelForge.Kotlin
