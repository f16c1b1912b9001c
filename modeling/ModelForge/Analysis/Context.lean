/-
What an analysis looks at, and what it leaves behind.

A `Context` is the index of all declarations with the markers in force. While a run goes on,
the failure types and the names of models that have been found are kept in a
`ResolutionCache`, so that each is found once; a `Resolution` is a computation that may use
the cache and may end in a problem. A problem leaves the cache as it was when it arose.

* `Resolution.cached` asks the cache first and enters what had to be computed;
* `typeNameOf` is the type of a reference, written out without being classified.
-/
import ModelForge.Config
import ModelForge.Index
import ModelForge.Names

namespace ModelForge

/-- The declarations and the markers that an analysis looks at. -/
structure Context where
  index : DeclarationIndex
  markers : Markers
deriving Inhabited

/-- What has been found out about declarations, by their names. -/
structure ResolutionCache where
  failureTypes : List (String × TypeName) := []
  /-- `none` for a class that no model is generated for -/
  modelNames : List (String × Option ModelNames) := []
  hits : Nat := 0
  misses : Nat := 0
deriving Repr, Inhabited

/-- A computation that uses the cache and may end in a problem. -/
abbrev Resolution := ExceptT Problem (StateM ResolutionCache)

namespace ResolutionCache

/-- The cache after a look-up. -/
def counted (c : ResolutionCache) (hit : Bool) : ResolutionCache :=
  if hit then { c with hits := c.hits + 1 } else { c with misses := c.misses + 1 }

end ResolutionCache

namespace Resolution

/-- The entry for a name, computed and entered if it is not there. -/
def cached {α : Type} (entries : ResolutionCache → List (String × α))
    (enter : String × α → ResolutionCache → ResolutionCache) (name : String)
    (compute : Except Problem α) : Resolution α := do
  let found := (entries (← get)).lookup name
  modify (·.counted found.isSome)
  match found with
  | some a => return a
  | none =>
    let a ← liftExcept compute
    modify (enter (name, a))
    return a
where
  /-- A computation that does not use the cache. -/
  liftExcept : Except Problem α → Resolution α
    | .ok a => pure a
    | .error p => throw p

/-- The failure type of a class, by way of the cache. -/
def failureType (name : String) (compute : Except Problem TypeName) : Resolution TypeName :=
  cached (·.failureTypes) (fun e c => { c with failureTypes := e :: c.failureTypes }) name compute

/-- The names of a class's model, by way of the cache. -/
def modelNames (name : String) (compute : Except Problem (Option ModelNames)) :
    Resolution (Option ModelNames) :=
  cached (·.modelNames) (fun e c => { c with modelNames := e :: c.modelNames }) name compute

end Resolution

namespace Context

/-- The class that a name refers to in a scope, without arguments and nullability. -/
def baseName (ctx : Context) (scope : Option Scope) (name : String) : TypeName :=
  match ctx.index.resolve name scope with
  | .ofClass c => .ofClass c
  | .ofAlias a => .ofAlias a
  | .typeParameter _ | .external => .ofQualified name

mutual

/-- The type of a reference, written out. Variances are left away. -/
def typeNameOf (ctx : Context) (scope : Option Scope) : TypeRef → TypeName
  | .mk name arguments nullable =>
    ((ctx.baseName scope name).withNullable nullable).withArguments
      (typeNamesOf ctx scope arguments)

/-- The type of an argument, `none` for a star. -/
def typeNameOfArgument (ctx : Context) (scope : Option Scope) : TypeArgument → Option TypeName
  | .star => none
  | .type _ ref => some (typeNameOf ctx scope ref)

/-- The types of the arguments. -/
def typeNamesOf (ctx : Context) (scope : Option Scope) : List TypeArgument → List (Option TypeName)
  | [] => []
  | a :: as => typeNameOfArgument ctx scope a :: typeNamesOf ctx scope as

end

end Context

end ModelForge
