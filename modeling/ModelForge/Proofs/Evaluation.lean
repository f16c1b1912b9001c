/-
What the generated code computes.

Expressions, factories and builders are given a meaning here.  Parameters, locals and the
parameters of blocks are variables of one scope, where a later binding hides an earlier one of
the same name.  A class counts by its dotted name, be it a class that code is put together of or
one as it is written; whether the words that are written lead to this class is asked apart, in
`Factory.Resolves`.

* `ClassName` — what a class is named by: its dotted name;
* `Value` — null, results, options, lists, objects and failures, over values `α` of which
  nothing is known;
* `Library` — what the code calls and does not contain: the companions of validated values
  and the builders;
* `Expr.eval` — the value of an expression, or a `Fault`: a name without value, a call on a
  value that does not have it, an empty list where a non-empty one is asserted;
* `Factory.run` — what a factory returns for the values that are passed to it;
* `Builder.run` — what a builder builds of the values that are staged in it.
-/
import ModelForge.Generation.Factory
import ModelForge.Kotlin.Imports

namespace ModelForge.Kotlin

open Generation

/-- Ways to name a class. -/
class ClassName (C : Type) where
  /-- the dotted name of the class -/
  dottedName : C → String

instance : ClassName TypeName :=
  ⟨TypeName.canonicalName⟩

instance : ClassName ClassUse :=
  ⟨fun c => qualify c.package (String.intercalate "." c.simpleNames)⟩

/-- A value of the generated code. -/
inductive Value (α : Type)
  | atom (a : α)
  | null
  /-- a failed result -/
  | left (failure : Value α)
  /-- a successful result -/
  | right (success : Value α)
  /-- the empty option -/
  | absent
  | present (content : Value α)
  | list (elements : List (Value α))
  /-- an object of a generated class, with what its constructor was given by name -/
  | constructed (c : String) (fields : List (String × Value α))
  /-- a failure of the property that a variant of a union stands for -/
  | variant (union : String) (name : String) (parent : Value α)

/-- Why there is no value. -/
inductive Fault
  | unbound (name : String)
  | unknownClass (c : String)
  /-- a class or function is meant, and its name leads elsewhere -/
  | hidden
  /-- a call on a value that does not have it, null among them -/
  | noSuchCall
  /-- a list is asserted not to be empty, and it is -/
  | emptyList

/-- What the generated code calls and does not contain. -/
structure Library (α : Type) where
  /-- what the companion of a class makes of a raw value: a failure or a validated value -/
  make : String → Bool → Value α → Except (Value α) (Value α)
  /-- the option that a builder builds -/
  build : Value α → Value α

variable {α C T : Type} [ClassName C]

namespace Value

/-- The result of a validation. -/
def ofResult : Except (Value α) (Value α) → Value α
  | .ok v => right v
  | .error e => left e

/-- A call. If it is safe, null is left as it is. -/
def call (safe : Bool) (f : Value α → Except Fault (Value α)) : Value α → Except Fault (Value α)
  | null => if safe then .ok null else f null
  | v => f v

/-- A block mapped over the success of a result, the content of an option or the elements of
a list. -/
def mapped (f : Value α → Except Fault (Value α)) : Value α → Except Fault (Value α)
  | left e => .ok (left e)
  | right v => do return right (← f v)
  | absent => .ok absent
  | present v => do return present (← f v)
  | list vs => do return list (← vs.mapM f)
  | _ => .error .noSuchCall

/-- The failures and the successes of a list of results, in the order of the list. -/
def gathered : List (Value α) → Except Fault (List (Value α) × List (Value α))
  | [] => .ok ([], [])
  | left e :: vs => do
    let (failures, successes) ← gathered vs
    return (e :: failures, successes)
  | right v :: vs => do
    let (failures, successes) ← gathered vs
    return (failures, v :: successes)
  | _ :: _ => .error .noSuchCall

/-- Every failure of a list of results, or every success if there is no failure. -/
def validated : Value α → Except Fault (Value α)
  | list vs => do
    match ← gathered vs with
    | ([], successes) => return right (list successes)
    | (failures, _) => return left (list failures)
  | _ => .error .noSuchCall

/-- What a result holds. -/
def content : Value α → Except Fault (Value α)
  | left e => .ok e
  | right v => .ok v
  | _ => .error .noSuchCall

/-- The list, which is asserted not to be empty. -/
def nonEmptyList : List (Value α) → Except Fault (Value α)
  | [] => .error .emptyList
  | vs => .ok (list vs)

end Value

/-- The variables in scope, the innermost first. -/
abbrev Variables (α : Type) := List (String × Value α)

/-- The value of a variable. -/
def Variables.get (s : Variables α) (name : String) : Except Fault (Value α) :=
  match s.lookup name with
  | some v => .ok v
  | none => .error (.unbound name)

/-- What belongs to a class, if the class that is named is this one. -/
def ofClass {β : Type} (named : C) (expected : TypeName) (b : β) : Except Fault β :=
  if ClassName.dottedName named = expected.canonicalName then .ok b
  else .error (.unknownClass (ClassName.dottedName named))

/-- The value of an expression. -/
def Expr.eval (lib : Library α) : Expr C → Variables α → Except Fault (Value α)
  | parameter name, s => s.get name
  | held name, s => s.get name
  | it, s => s.get "it"
  | null, _ => .ok .null
  | object c, _ => ofClass c noneObject .absent
  | wrap c e, s => do ofClass c someClass (.present (← e.eval lib s))
  | right c e, s => do ofClass c eitherClass (.right (← e.eval lib s))
  | make wrapper nullable e, s => do
    return .ofResult (lib.make (ClassName.dottedName wrapper) nullable (← e.eval lib s))
  | letIt receiver block, s => do
    (← receiver.eval lib s).call true fun v => block.eval lib (("it", v) :: s)
  | map receiver safe name block, s => do
    (← receiver.eval lib s).call safe
      (Value.mapped fun v => block.eval lib ((name.getD "it", v) :: s))
  | fold receiver safe absent present, s => do
    (← receiver.eval lib s).call safe fun
      | .absent => absent.eval lib s
      | .present v => present.eval lib (("it", v) :: s)
      | _ => .error .noSuchCall
  | validate receiver safe, s => do (← receiver.eval lib s).call safe Value.validated
  | flatMap receiver block, s => do
    match ← receiver.eval lib s with
    | .absent => return .absent
    | .present v => block.eval lib (("it", v) :: s)
    | _ => throw .noSuchCall
  | build receiver safe, s => do
    (← receiver.eval lib s).call safe fun v => .ok (lib.build v)
  | content receiver, s => do (← receiver.eval lib s).content
  | orElse value fallback, s => do
    match ← value.eval lib s with
    | .null => fallback.eval lib s
    | v => return v

/-! ### Factories -/

/-- The variables after the locals, each evaluated where those before it are in scope. -/
def bindLocals (lib : Library α) : List (Local C T) → Variables α → Except Fault (Variables α)
  | [], s => .ok s
  | l :: ls, s => do bindLocals lib ls ((l.name, ← l.value.eval lib s) :: s)

/-- The values of the arguments, with their names. -/
def evalArguments (lib : Library α) (s : Variables α) :
    List (Argument C) → Except Fault (List (String × Value α))
  | [] => .ok []
  | a :: as => do return (a.name, ← a.value.eval lib s) :: (← evalArguments lib s as)

/-- Whether a value is a result on this side. -/
def Side.isOf : Side → Value α → Bool
  | left, .left _ => true
  | right, .right _ => true
  | _, _ => false

/-- Whether a condition holds. -/
def Condition.holds (c : Condition C) (either : C) (lib : Library α) (s : Variables α) :
    Except Fault Bool := do
  ofClass either eitherClass (c.side.isOf (← c.result.eval lib s))

/-- Whether all conditions hold. They are looked at until one does not. -/
def allHold (either : C) (lib : Library α) (s : Variables α) :
    List (Condition C) → Except Fault Bool
  | [] => .ok true
  | c :: cs => do
    if ← c.holds either lib s then allHold either lib s cs
    else return false

/-- What the failure cases add whose conditions hold, each value in its variant. -/
def gatherFailures (either variants : C) (lib : Library α) (s : Variables α) :
    List (FailureCase C) → Except Fault (List (Value α))
  | [] => .ok []
  | c :: cs => do
    if ← c.condition.holds either lib s then
      let failure ← c.value.eval lib s
      return .variant (ClassName.dottedName variants) c.variant failure ::
        (← gatherFailures either variants lib s cs)
    else gatherFailures either variants lib s cs

namespace Factory

/-- The success that holds the constructed object. -/
def success (f : Factory C T) (lib : Library α) (s : Variables α) : Except Fault (Value α) := do
  ofClass f.either eitherClass
    (.right (.constructed (ClassName.dottedName f.constructed) (← evalArguments lib s f.arguments)))

/-- What is returned once the locals are there. -/
def outcome (f : Factory C T) (lib : Library α) (s : Variables α) : Except Fault (Value α) :=
  match f.failure with
  | none => f.success lib s
  | some b => do
    if ← allHold f.either lib s b.conditions then f.success lib s
    else
      let failures ← gatherFailures f.either b.variants lib s b.cases
      ofClass f.either eitherClass (.left (← Value.nonEmptyList failures))

/-- What a factory returns for the values that are passed, in the order of its parameters. -/
def run (f : Factory C T) (lib : Library α) (passed : List (Value α)) :
    Except Fault (Value α) := do
  f.outcome lib (← bindLocals lib f.locals ((f.parameters.map (·.name)).zip passed))

end Factory

/-! ### Builders -/

/-- A block that gives an option, over the content of an option. -/
def Value.flatMapped (f : Value α → Except Fault (Value α)) : Value α → Except Fault (Value α)
  | absent => .ok absent
  | present v => f v
  | _ => .error .noSuchCall

/-- A block applied to the content of an option. -/
def Combinator.apply (f : Value α → Except Fault (Value α)) :
    Combinator → Value α → Except Fault (Value α)
  | map => Value.mapped f
  | flatMap => Value.flatMapped f

/-- What the steps of a builder give, each inside the block of the one before it. -/
def runSteps (lib : Library α) (inner : Variables α → Except Fault (Value α)) :
    List (BuildStep C) → Variables α → Except Fault (Value α)
  | [], s => inner s
  | step :: steps, s => do
    step.combinator.apply (fun v => runSteps lib inner steps ((step.name, v) :: s))
      (← step.source.eval lib s)

/-- The params with their arguments. -/
def constructParams (lib : Library α) (params : C) (arguments : List (Argument C))
    (s : Variables α) : Except Fault (Value α) := do
  return .constructed (ClassName.dottedName params) (← evalArguments lib s arguments)

/-- What a builder's function returns. -/
def BuildBody.run (lib : Library α) (params : C) :
    BuildBody C → Variables α → Except Fault (Value α)
  | present wrapper, _ =>
    ofClass wrapper someClass (.present (.constructed (ClassName.dottedName params) []))
  | chain steps arguments, s => runSteps lib (constructParams lib params arguments) steps s

/-- What a builder builds of the values that are staged, in the order of its fields. -/
def Builder.run (b : Builder C T) (lib : Library α) (staged : List (Value α)) :
    Except Fault (Value α) :=
  b.body.run lib b.params ((b.staged.map (·.name)).zip staged)

end ModelForge.Kotlin
