/-
From names of types to what is written.

`spell` goes through a piece of code and settles how each class and type in it is written.
The order matters where two classes share a simple name: the one met first gets it. Types of
parameters and results come first, then the locals in order, in each the classes of its
value before its type, and last what the result is made of.
-/
import ModelForge.Kotlin.Code
import ModelForge.Kotlin.Imports

namespace ModelForge.Kotlin

/-- The package of the functions and classes on options, results and non-empty lists. -/
def arrowPackage : String := "arrow.core"

/-- The package of the runtime library's functions. -/
def runtimePackage : String := "modelsmith.core"

/-- Spells the classes in an expression from left to right. -/
def Expr.spell : Expr TypeName → Naming (Expr ClassUse)
  | parameter name => return parameter name
  | held name => return held name
  | it => return it
  | null => return null
  | object c => do return object (← Imports.reference c)
  | wrap c inner => do return wrap (← Imports.reference c) (← inner.spell)
  | right either inner => do return right (← Imports.reference either) (← inner.spell)
  | make wrapper nullable raw => do
    return make (← Imports.reference wrapper) nullable (← raw.spell)
  | letIt receiver block => do return letIt (← receiver.spell) (← block.spell)
  | map receiver safe name block => do return map (← receiver.spell) safe name (← block.spell)
  | fold receiver safe absent present => do
    return fold (← receiver.spell) safe (← absent.spell) (← present.spell)
  | validate receiver safe => do
    Imports.member runtimePackage "validate"
    return validate (← receiver.spell) safe
  | flatMap receiver block => do return flatMap (← receiver.spell) (← block.spell)
  | build receiver safe => do return build (← receiver.spell) safe
  | content receiver => do return content (← receiver.spell)
  | orElse value fallback => do return orElse (← value.spell) (← fallback.spell)

/-- Spells the type of a local, if it is written. -/
def spellType : Option TypeName → Naming (Option TypeUse)
  | none => return none
  | some t => do return some (← Imports.render t)

/-- Spells a local: its value, then its type. -/
def Local.spell (l : Local TypeName TypeName) : Naming (Local ClassUse TypeUse) := do
  let value ← l.value.spell
  return ⟨l.name, ← spellType l.type, value⟩

/-- Spells the type of a parameter. -/
def Parameter.spell (p : Parameter TypeName) : Naming (Parameter TypeUse) := do
  return ⟨p.name, ← Imports.render p.type⟩

/-- Spells an argument. -/
def Argument.spell (a : Argument TypeName) : Naming (Argument ClassUse) := do
  return ⟨a.name, ← a.value.spell⟩

/-- Spells a condition. -/
def Condition.spell (c : Condition TypeName) : Naming (Condition ClassUse) := do
  return ⟨← c.result.spell, c.side⟩

/-- Spells a case of a failure branch. -/
def FailureCase.spell (c : FailureCase TypeName) : Naming (FailureCase ClassUse) := do
  return ⟨← c.condition.spell, c.variant, ← c.value.spell⟩

/-- Spells a failure branch, which needs a function on lists. -/
def FailureBranch.spell (b : FailureBranch TypeName TypeName) :
    Naming (FailureBranch ClassUse TypeUse) := do
  let conditions ← b.conditions.mapM Condition.spell
  let variants ← Imports.reference b.variants
  let union ← Imports.render b.union
  Imports.member arrowPackage "toNonEmptyListOrNull"
  return ⟨conditions, variants, union, ← b.cases.mapM FailureCase.spell⟩

/-- Spells the companion that a function extends. -/
def Receiver.spell (r : Receiver TypeName) : Naming (Receiver ClassUse) := do
  return ⟨← Imports.reference r.owner, r.companion⟩

/-- Spells what may be absent. -/
def spellOptional {α β : Type} (spell : α → Naming β) : Option α → Naming (Option β)
  | none => return none
  | some a => do return some (← spell a)

/-- Spells a factory. -/
def Factory.spell (f : Factory TypeName TypeName) : Naming (Factory ClassUse TypeUse) := do
  let receiver ← spellOptional Receiver.spell f.receiver
  let parameters ← f.parameters.mapM Parameter.spell
  let result ← Imports.render f.result
  let either ← Imports.reference f.either
  let locals ← f.locals.mapM Local.spell
  let constructed ← Imports.reference f.constructed
  let arguments ← f.arguments.mapM Argument.spell
  let failure ← spellOptional FailureBranch.spell f.failure
  return ⟨receiver, f.name, parameters, result, either, locals, constructed, arguments, failure⟩

/-- Spells a variant: its union, then its payload. -/
def Variant.spell (v : Variant TypeName TypeName) : Naming (Variant ClassUse TypeUse) := do
  let parent ← Imports.reference v.parent
  return ⟨v.name, ← Imports.render v.payload, parent⟩

/-- Spells a union. Inside of it the names of the variants hide classes of the same name. -/
def FailureUnion.spell (u : FailureUnion TypeName TypeName) :
    Naming (FailureUnion ClassUse TypeUse) := do
  Imports.declare u.name
  u.required.forM Imports.declare
  let name ← Imports.reference u.name
  u.variants.forM fun v => Imports.shadow (u.name.nested v.name)
  let variants ← u.variants.mapM Variant.spell
  return ⟨name, variants, ← spellOptional Imports.reference u.required⟩

/-- Spells a data class. -/
def DataClass.spell (d : DataClass TypeName TypeName) : Naming (DataClass ClassUse TypeUse) := do
  Imports.declare d.name
  let fields ← d.fields.mapM Parameter.spell
  let name ← Imports.reference d.name
  return ⟨name, fields, ← d.factories.mapM Factory.spell⟩

/-- Spells a step of a builder. -/
def BuildStep.spell (s : BuildStep TypeName) : Naming (BuildStep ClassUse) := do
  return ⟨s.name, s.combinator, ← s.source.spell⟩

/-- Spells what a builder's function returns. -/
def BuildBody.spell : BuildBody TypeName → Naming (BuildBody ClassUse)
  | present wrapper => do return present (← Imports.reference wrapper)
  | chain steps arguments => do
    return chain (← steps.mapM BuildStep.spell) (← arguments.mapM Argument.spell)

/-- Spells a builder. -/
def Builder.spell (b : Builder TypeName TypeName) : Naming (Builder ClassUse TypeUse) := do
  Imports.declare b.name
  let staged ← b.staged.mapM Parameter.spell
  let name ← Imports.reference b.name
  let params ← Imports.reference b.params
  let result ← Imports.render b.result
  let body ← b.body.spell
  return ⟨name, staged, params, result, body, ← spellOptional Imports.reference b.absent⟩

/-- Spells the parameter of an extension. -/
def OnlyParameter.spell (p : OnlyParameter TypeName) : Naming (OnlyParameter TypeUse) := do
  return ⟨p.name, ← Imports.render p.type, p.optional⟩

/-- Spells an extension that constructs a class. -/
def OnlyExtension.spell (f : OnlyExtension TypeName TypeName) :
    Naming (OnlyExtension ClassUse TypeUse) := do
  let receiver ← f.receiver.spell
  let absent ← Imports.reference f.absent
  return ⟨receiver, absent, ← f.parameters.mapM OnlyParameter.spell⟩

/-- Spells what a file declares. -/
def Content.spell : Content TypeName TypeName → Naming (Content ClassUse TypeUse)
  | failureUnion u => do return failureUnion (← u.spell)
  | dataClass d => do return dataClass (← d.spell)
  | builder b => do return builder (← b.spell)
  | factory f => do return factory (← f.spell)
  | only f => do return only (← f.spell)

/-- What a file declares, as it is written, and the imports it needs. -/
def File.spelled (f : File) : Content ClassUse TypeUse × Imports :=
  f.content.spell.run (.start f.package)

end ModelForge.Kotlin
