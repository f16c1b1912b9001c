/-
The problems that classification ends in.

Classification decodes the markers of nested models, looks for the failure types of validated
values and expands aliases, all by way of a cache.  Whatever the cache, a problem that it ends
in is one of these:

* `Problem.concernsTypes` — the problems of types and their markers, among which there are none
  of the shape of a declaration or of its fields;
* `EndsIn` and `Resolution.EndsIn` — a computation has no other problems than these, whatever
  the cache, with one lemma for each way of putting computations together;
* `Problem.isBinding` — the problems with the arguments that a chain of supertypes passes on, which
  are all that writing a type out may end in: `Context.isBinding_of_concrete`;
* `Context.endsIn_failureTypeOf`, `Context.endsIn_classify` — the search for a failure type and
  classification.
-/
import ModelForge.Proofs.CacheTransparency

namespace ModelForge

/-- Whether a problem is one with a type or with the markers that it is recognised by. -/
def Problem.concernsTypes : Problem → Bool
  | endlessAlias .. | invalidArgument .. | missingWrappedType .. | unresolvedFailure ..
  | unboundParameter .. | invalidBinding .. => true
  | _ => false

/-- Whether a problem is one of type arguments that are missing or do not fit. -/
def Problem.isBinding : Problem → Bool
  | unboundParameter .. | invalidBinding .. => true
  | _ => false

theorem Problem.concernsTypes_of_isBinding {e : Problem} (h : e.isBinding = true) :
    e.concernsTypes = true := by
  cases e with
  | unboundParameter | invalidBinding => rfl
  | _ => cases h

/-! ### Computations without a cache -/

section Pure

variable {α β : Type}

/-- If there is a problem, it is one with types. -/
def EndsIn (r : Except Problem α) : Prop :=
  ∀ e, r = .error e → e.concernsTypes = true

theorem endsIn_ok (a : α) : EndsIn (.ok a : Except Problem α) :=
  nofun

theorem endsIn_error {e : Problem} (h : e.concernsTypes = true) :
    EndsIn (.error e : Except Problem α) := by
  rintro _ ⟨⟩
  exact h

theorem EndsIn.bind {r : Except Problem α} {f : α → Except Problem β} (h : EndsIn r)
    (hf : ∀ a, EndsIn (f a)) : EndsIn (r >>= f) := by
  cases r with
  | ok a => exact hf a
  | error e => exact endsIn_error (h e rfl)

theorem endsIn_identifier (a : Annotation) (name : String) : EndsIn (a.identifier name) := by
  unfold Annotation.identifier
  split
  · split
    · exact endsIn_ok _
    · exact endsIn_error rfl
  · exact endsIn_error rfl

theorem endsIn_typeArgument (a : Annotation) (name : String) : EndsIn (a.typeArgument name) := by
  unfold Annotation.typeArgument
  split
  · exact endsIn_ok _
  · exact endsIn_error rfl

theorem endsIn_flag (a : Annotation) (name : String) (default : Bool) :
    EndsIn (a.flag name default) := by
  unfold Annotation.flag
  split
  · exact endsIn_ok _
  · exact endsIn_ok _
  · exact endsIn_error rfl

/-- A directive that cannot be read. -/
theorem endsIn_decode (a : Annotation) : EndsIn (FieldDirective.decode a) :=
  (endsIn_identifier a "name").bind fun _ => (endsIn_typeArgument a "type").bind fun _ =>
    (endsIn_flag a "ignore" true).bind fun _ => endsIn_ok _

/-- A problem of a computation of two steps is one of its steps. -/
theorem eq_error_of_bind {r : Except Problem α} {f : α → Except Problem β} {e : Problem}
    (h : r >>= f = .error e) : r = .error e ∨ ∃ a, f a = .error e := by
  cases r with
  | ok a => exact .inr ⟨a, h⟩
  | error e' =>
    cases h
    exact .inl rfl

theorem Link.isBinding_of_argumentFor {l : Link} {value parameter : String} {index : Nat}
    {e : Problem} (h : l.argumentFor value parameter index = .error e) : e.isBinding = true := by
  unfold argumentFor at h
  dsimp only at h
  split at h
  · cases h
    rfl
  · split at h <;> cases h <;> rfl

end Pure

namespace Context

variable {ctx : Context}

/-! ### Failure types -/

section

variable {scope : Scope} {bound : String → Nat → Except Problem TypeName} {e : Problem}

mutual

/-- A problem with writing a type out is one with a type parameter of its scope. -/
theorem bound_of_instantiate : ∀ t : TypeRef, ctx.instantiate scope bound t = .error e →
    ∃ parameter index, bound parameter index = .error e
  | .mk name arguments nullable, h => by
    rw [instantiate] at h
    split at h
    · rename_i index _
      rcases eq_error_of_bind h with hbound | ⟨_, hok⟩
      · exact ⟨name, index, hbound⟩
      · cases hok
    · rcases eq_error_of_bind h with harguments | ⟨_, hok⟩
      · exact bound_of_instantiateList arguments harguments
      · cases hok

theorem bound_of_instantiateArgument : ∀ a : TypeArgument,
    ctx.instantiateArgument scope bound a = .error e →
      ∃ parameter index, bound parameter index = .error e
  | .star, h => by
    rw [instantiateArgument] at h
    cases h
  | .type _ t, h => by
    rw [instantiateArgument] at h
    rcases eq_error_of_bind h with ht | ⟨_, hok⟩
    · exact bound_of_instantiate t ht
    · cases hok

theorem bound_of_instantiateList : ∀ as : List TypeArgument,
    ctx.instantiateList scope bound as = .error e →
      ∃ parameter index, bound parameter index = .error e
  | [], h => by
    rw [instantiateList] at h
    cases h
  | a :: as, h => by
    rw [instantiateList] at h
    rcases eq_error_of_bind h with hfirst | ⟨_, hlater⟩
    · exact bound_of_instantiateArgument a hfirst
    · rcases eq_error_of_bind hlater with hrest | ⟨_, hok⟩
      · exact bound_of_instantiateList as hrest
      · cases hok

end

end

/-- What goes wrong at the end of a chain goes wrong with an argument of a link. -/
theorem isBinding_of_concrete {value : String} {root : Scope} {e : Problem} (chain : List Link) :
    ∀ {t : TypeRef}, ctx.concrete value root chain t = .error e → e.isBinding = true := by
  induction chain with
  | nil =>
    intro t h
    rw [concrete] at h
    obtain ⟨parameter, index, hbound⟩ := bound_of_instantiate t h
    cases hbound
    rfl
  | cons link chain ih =>
    intro t h
    rw [concrete] at h
    obtain ⟨parameter, index, hbound⟩ := bound_of_instantiate t h
    rcases eq_error_of_bind hbound with hargument | ⟨reference, hearlier⟩
    · exact Link.isBinding_of_argumentFor hargument
    · exact ih hearlier

theorem isBinding_of_failureArgument {validator : TypeRef} {e : Problem}
    (h : ctx.failureArgument validator = .error e) : e.isBinding = true := by
  unfold failureArgument at h
  dsimp only at h
  split at h <;> cases h <;> rfl

/-- Once the validator interface has been found, only the arguments can be wrong. -/
theorem isBinding_of_bind_concrete {value : String} {root : Scope} {chain : List Link}
    {validator : TypeRef} {e : Problem}
    (h : ctx.failureArgument validator >>= ctx.concrete value root chain = .error e) :
    e.isBinding = true := by
  rcases eq_error_of_bind h with hargument | ⟨reference, hconcrete⟩
  · exact isBinding_of_failureArgument hargument
  · exact isBinding_of_concrete chain hconcrete

theorem endsIn_failureTypeOf (value : ClassDecl) : EndsIn (ctx.failureTypeOf value) := by
  unfold failureTypeOf
  dsimp only
  split
  · exact endsIn_error rfl
  · split
    · exact endsIn_error rfl
    · exact fun _ h => Problem.concernsTypes_of_isBinding (isBinding_of_bind_concrete h)

theorem endsIn_modelNamesOf (c : ClassDecl) : EndsIn (ctx.modelNamesOf c) := by
  unfold modelNamesOf
  split
  · exact (endsIn_identifier _ _).bind fun _ => endsIn_ok _
  · split
    · exact endsIn_ok _
    · exact endsIn_ok _

end Context

/-! ### Computations with a cache -/

namespace Resolution

variable {α β : Type}

/-- Whatever the cache, a problem that the computation ends in is one with types. -/
def EndsIn (r : Resolution α) : Prop :=
  ∀ c, ModelForge.EndsIn (r.result c)

theorem endsIn_pure (a : α) : EndsIn (pure a : Resolution α) :=
  fun _ => endsIn_ok a

theorem endsIn_throw {e : Problem} (h : e.concernsTypes = true) :
    EndsIn (throw e : Resolution α) :=
  fun _ => endsIn_error h

theorem EndsIn.bind {r : Resolution α} {f : α → Resolution β} (h : EndsIn r)
    (hf : ∀ a, EndsIn (f a)) : EndsIn (r >>= f) := by
  intro c
  rw [result_bind]
  have hr := h c
  cases hresult : r.result c with
  | ok a => exact hf a (r.leaves c)
  | error e =>
    rw [hresult] at hr
    exact endsIn_error (hr e rfl)

/-- What is in the cache is no problem. -/
theorem endsIn_cached {entries : ResolutionCache → List (String × α)}
    {enter : String × α → ResolutionCache → ResolutionCache} {name : String}
    {compute : Except Problem α} (h : ModelForge.EndsIn compute) :
    EndsIn (cached entries enter name compute) := by
  intro c
  rw [result, run_cached]
  split
  · exact endsIn_ok _
  · split
    · exact endsIn_ok _
    · exact endsIn_error (h _ rfl)

end Resolution

namespace Context

open Resolution

variable {ctx : Context}

/-! ### Classification -/

theorem endsIn_failureType (c : ClassDecl) : (ctx.failureType c).EndsIn := by
  unfold failureType Resolution.failureType
  exact endsIn_cached (endsIn_failureTypeOf c)

theorem endsIn_modelNames (c : ClassDecl) : (ctx.modelNames c).EndsIn := by
  unfold modelNames Resolution.modelNames
  exact endsIn_cached (endsIn_modelNamesOf c)

theorem endsIn_validatedValue (c : ClassDecl) (nullable : Bool) :
    (ctx.validatedValue c nullable).EndsIn := by
  unfold validatedValue
  split
  · exact endsIn_pure _
  · split
    · exact endsIn_throw rfl
    · exact (endsIn_failureType c).bind fun _ => endsIn_pure _

mutual

/-- Classification ends in problems with types if the expansion of aliases does. -/
theorem endsIn_classifyWith {expand : AliasDecl → TypeRef → Resolution PropertyKind}
    (hexpand : ∀ a reference, (expand a reference).EndsIn) (scope : Option Scope) :
    ∀ t : TypeRef, (ctx.classifyWith expand scope t).EndsIn
  | .mk name arguments nullable => by
    have harguments := endsIn_classifyArguments hexpand scope arguments
    rw [classifyWith]
    split
    · exact harguments.bind fun _ => endsIn_pure _
    · exact harguments.bind fun _ => endsIn_pure _
    · refine (endsIn_modelNames _).bind fun names => ?_
      cases names with
      | some names => exact endsIn_pure _
      | none =>
        refine (endsIn_validatedValue _ _).bind fun value => ?_
        cases value with
        | some v => exact endsIn_pure _
        | none => exact harguments.bind fun _ => endsIn_pure _
    · refine (hexpand _ _).bind fun kind => ?_
      cases kind with
      | standard => exact harguments.bind fun _ => endsIn_pure _
      | _ => exact endsIn_pure _

theorem endsIn_classifyArgument {expand : AliasDecl → TypeRef → Resolution PropertyKind}
    (hexpand : ∀ a reference, (expand a reference).EndsIn) (scope : Option Scope) :
    ∀ a : TypeArgument, (ctx.classifyArgument expand scope a).EndsIn
  | .star => by
    rw [classifyArgument]
    exact endsIn_pure _
  | .type _ t => by
    rw [classifyArgument]
    exact (endsIn_classifyWith hexpand scope t).bind fun _ => endsIn_pure _

theorem endsIn_classifyArguments {expand : AliasDecl → TypeRef → Resolution PropertyKind}
    (hexpand : ∀ a reference, (expand a reference).EndsIn) (scope : Option Scope) :
    ∀ as : List TypeArgument, (ctx.classifyArguments expand scope as).EndsIn
  | [] => by
    rw [classifyArguments]
    exact endsIn_pure _
  | a :: as => by
    rw [classifyArguments]
    exact (endsIn_classifyArgument hexpand scope a).bind fun _ =>
      (endsIn_classifyArguments hexpand scope as).bind fun _ => endsIn_pure _

end

theorem endsIn_classifyAt (scope : Option Scope) (depth : Nat) :
    ∀ t : TypeRef, (ctx.classifyAt scope depth t).EndsIn := by
  induction depth with
  | zero =>
    intro t
    rw [classifyAt]
    exact endsIn_classifyWith (fun _ _ => endsIn_throw rfl) scope t
  | succ depth ih =>
    intro t
    rw [classifyAt]
    exact endsIn_classifyWith (fun a reference => ih (a.expand reference)) scope t

/-- Whatever the cache, classification ends in no problem but one with types. -/
theorem endsIn_classify (scope : Option Scope) (t : TypeRef) : (ctx.classify scope t).EndsIn :=
  endsIn_classifyAt scope maxAliasDepth t

end Context

end ModelForge
