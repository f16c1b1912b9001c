/-
The failure type of a validated value.

The companion of a validated value extends the validator interface, which takes an input, a
failure and an output type: directly, or by way of other declarations, each of which passes
arguments on to the next. A `Link` is one such step.

* `findValidator` looks for the validator interface, depth first and in the order in which
  supertypes are written; at each level a validator that is listed directly comes before all
  further steps. A class is never entered twice on one way up;
* `concrete` writes a type out where it stands at the end of a chain of links: a type
  parameter is replaced by what the last link passes for it, written out one link earlier,
  until at the companion itself no parameters are left;
* `failureTypeOf` puts the two together.
-/
import ModelForge.Analysis.Context

namespace ModelForge

/-- A step to a supertype: the reference as it is written, and the class it refers to. -/
structure Link where
  reference : TypeRef
  declaration : ClassDecl

namespace Link

/-- What the link passes for a type parameter of its class. -/
def argumentFor (l : Link) (value parameter : String) (index : Nat) : Except Problem TypeRef :=
  let fault (f : BindingFault) : Problem :=
    .invalidBinding l.declaration.qualifiedName l.reference.display f
  if l.reference.arguments.isEmpty then .error (.unboundParameter value parameter)
  else
    match l.reference.arguments[index]? with
    | some (.type _ ref) => .ok ref
    | some .star => .error (fault (.starParameter parameter))
    | none =>
      .error (fault (.arity l.declaration.typeParameters.length l.reference.arguments.length))

/-- The scope at the end of a chain, whose last link comes first. -/
def scopeOf (root : Scope) : List Link → Scope
  | [] => root
  | link :: _ => link.declaration.scope

/-- The names of the classes that a chain leads through. -/
def names (chain : List Link) : List String :=
  chain.map fun l => l.declaration.qualifiedName

end Link

namespace Context

/-- Whether a supertype is the validator interface, and not a type parameter of its name. -/
def isValidator (ctx : Context) (scope : Scope) (reference : TypeRef) : Bool :=
  reference.name == ctx.markers.valueValidator && (scope.parameterIndex? reference.name).isNone

/-- The validator interface as it is listed at the end of the first chain that leads to it,
and that chain. -/
def findValidator (ctx : Context) (root : Scope) (chain : List Link) :
    Option (List Link × TypeRef) :=
  let scope := Link.scopeOf root chain
  match scope.superTypes.find? (ctx.isValidator scope) with
  | some reference => some (chain, reference)
  | none =>
    scope.superTypes.findSome? fun reference =>
      match _hr : ctx.index.resolve reference.name (some scope) with
      | .ofClass declaration =>
        if _hp : declaration.qualifiedName ∈ Link.names chain then none
        else findValidator ctx root (⟨reference, declaration⟩ :: chain)
      | _ => none
termination_by (ctx.index.remaining (Link.names chain)).length
decreasing_by
  have hc := DeclarationIndex.class?_eq_some_of_resolve _hr
  have hn := (DeclarationIndex.mem_classes_of_class? hc).2
  rw [hn] at _hp
  refine DeclarationIndex.remaining_length_lt hc _hp fun n => ?_
  simp [Link.names, hn]

mutual

/-- A reference written out, with `bound` for the type parameters of its scope. A parameter
is nullable if its use or what is bound to it is; arguments of its use do not count. -/
def instantiate (ctx : Context) (scope : Scope) (bound : String → Nat → Except Problem TypeName) :
    TypeRef → Except Problem TypeName
  | .mk name arguments nullable =>
    match ctx.index.resolve name (some scope) with
    | .typeParameter index => do
      let type ← bound name index
      return type.withNullable (type.nullable || nullable)
    | _ => do
      let types ← instantiateList ctx scope bound arguments
      return ((ctx.baseName (some scope) name).withNullable nullable).withArguments types

/-- An argument written out, `none` for a star. -/
def instantiateArgument (ctx : Context) (scope : Scope)
    (bound : String → Nat → Except Problem TypeName) :
    TypeArgument → Except Problem (Option TypeName)
  | .star => return none
  | .type _ ref => do return some (← instantiate ctx scope bound ref)

/-- The arguments written out. -/
def instantiateList (ctx : Context) (scope : Scope)
    (bound : String → Nat → Except Problem TypeName) :
    List TypeArgument → Except Problem (List (Option TypeName))
  | [] => return []
  | a :: as => do
    let type ← instantiateArgument ctx scope bound a
    return type :: (← instantiateList ctx scope bound as)

end

/-- A reference at the end of a chain, written out. The chain's last link comes first. -/
def concrete (ctx : Context) (value : String) (root : Scope) :
    List Link → TypeRef → Except Problem TypeName
  | [] => ctx.instantiate root fun parameter _ => .error (.unboundParameter value parameter)
  | link :: chain =>
    ctx.instantiate link.declaration.scope fun parameter index => do
      concrete ctx value root chain (← link.argumentFor value parameter index)

/-- The failure type that a listed validator interface takes, as it is written. -/
def failureArgument (ctx : Context) (validator : TypeRef) : Except Problem TypeRef :=
  let fault (f : BindingFault) : Problem :=
    .invalidBinding ctx.markers.valueValidator validator.display f
  match validator.arguments with
  | [_, .type _ failure, _] => .ok failure
  | [_, .star, _] => .error (fault .starFailure)
  | arguments => .error (fault (.validatorArity arguments.length))

/-- The failure type of a validated value. -/
def failureTypeOf (ctx : Context) (value : ClassDecl) : Except Problem TypeName := do
  let name := value.qualifiedName
  match value.companionScope? with
  | none => .error (.unresolvedFailure name .noCompanion)
  | some root =>
    match ctx.findValidator root [] with
    | none => .error (.unresolvedFailure name (.noValidator ctx.markers.valueValidator))
    | some (chain, validator) =>
      ctx.concrete name root chain (← ctx.failureArgument validator)

/-- The failure type of a validated value, by way of the cache. -/
def failureType (ctx : Context) (value : ClassDecl) : Resolution TypeName :=
  Resolution.failureType value.qualifiedName (ctx.failureTypeOf value)

end Context

end ModelForge
