/-
The rules of classification.

Classification counts the expansions of aliases that are left, and it asks a cache.  If it gives
a kind, then neither shows in it.  The kind is given by rules, one for each way in which a type
takes part in validation:

* `Context.IsPlain` — the name is no alias, and no class that is a model or a value;
* `Context.Classifies` — a type has a kind: by one rule for models, one for values, one for plain
  names with their arguments, and two for aliases, whose name stays where the kind shows one;
* `Context.classifies_of_classify` — classification goes by the rules.

What the name of a type stands for decides which rule applies (`Classifies.eq_model`,
`Classifies.eq_value`, `Classifies.of_plain`, `Classifies.of_alias`).
-/
import ModelForge.Proofs.StoredTypes

namespace ModelForge

/-- The kind under the name of an alias, if it is a value; any other kind shows no name of its
own. -/
def PropertyKind.wrappedIn (wrapper : TypeName) : PropertyKind → PropertyKind
  | value v => value { v with wrapper := wrapper }
  | kind => kind

namespace Context

open Resolution PropertyKind

variable {ctx : Context} {scope : Option Scope}

/-- The name is no alias, and no class that a model is generated for or that is one of value
objects. -/
structure IsPlain (ctx : Context) (scope : Option Scope) (name : String) : Prop where
  notAlias : ∀ a, ctx.index.resolve name scope ≠ .ofAlias a
  notSpecial : ∀ c, ctx.index.resolve name scope = .ofClass c → ¬ ctx.IsModelOrValue c

mutual

/-- A type that is written in a scope has a kind. -/
inductive Classifies (ctx : Context) (scope : Option Scope) : TypeRef → PropertyKind → Prop
  /-- a class that a model is generated for -/
  | model {name : String} {arguments : List TypeArgument} {nullable : Bool} {c : ClassDecl}
    {names : ModelNames} (hr : ctx.index.resolve name scope = .ofClass c)
    (hnames : ctx.modelNamesOf c = .ok (some names)) :
    Classifies ctx scope (.mk name arguments nullable) (.model ⟨names, nullable⟩)
  /-- a class of value objects -/
  | value {name : String} {arguments : List TypeArgument} {nullable : Bool} {c : ClassDecl}
    {v : ValidatedValue} (hr : ctx.index.resolve name scope = .ofClass c)
    (hnone : ctx.modelNamesOf c = .ok none)
    (hvalue : (ctx.validatedValue c nullable).result {} = .ok (some v)) :
    Classifies ctx scope (.mk name arguments nullable) (.value v)
  /-- any other class, a type parameter or an external name -/
  | plain {name : String} {arguments : List TypeArgument} {nullable : Bool}
    {kinds : List (Option PropertyKind)} (hplain : ctx.IsPlain scope name)
    (hkinds : ClassifiesAll ctx scope arguments kinds) :
    Classifies ctx scope (.mk name arguments nullable)
      (.ofType ctx.markers ((ctx.baseName scope name).withNullable nullable) kinds)
  /-- an alias of a type that is not standard -/
  | aliased {name : String} {arguments : List TypeArgument} {nullable : Bool} {a : AliasDecl}
    {kind : PropertyKind} (hr : ctx.index.resolve name scope = .ofAlias a)
    (hkind : Classifies ctx scope (a.expand (.mk name arguments nullable)) kind)
    (hspecial : kind.isStandard = false) :
    Classifies ctx scope (.mk name arguments nullable) (kind.wrappedIn (.ofAlias a))
  /-- an alias of a standard type -/
  | aliasedStandard {name : String} {arguments : List TypeArgument} {nullable : Bool}
    {a : AliasDecl} {kind : PropertyKind} {kinds : List (Option PropertyKind)}
    (hr : ctx.index.resolve name scope = .ofAlias a)
    (hkind : Classifies ctx scope (a.expand (.mk name arguments nullable)) kind)
    (hstandard : kind.isStandard = true) (hkinds : ClassifiesAll ctx scope arguments kinds) :
    Classifies ctx scope (.mk name arguments nullable) (.standard
      ((TypeName.ofAlias a).withNullable (a.expand (.mk name arguments nullable)).nullable) kinds)

/-- Arguments have kinds, a star has none. -/
inductive ClassifiesAll (ctx : Context) (scope : Option Scope) :
    List TypeArgument → List (Option PropertyKind) → Prop
  | nil : ClassifiesAll ctx scope [] []
  | star {arguments : List TypeArgument} {kinds : List (Option PropertyKind)}
    (hrest : ClassifiesAll ctx scope arguments kinds) :
    ClassifiesAll ctx scope (.star :: arguments) (none :: kinds)
  | type {variance : Variance} {t : TypeRef} {kind : PropertyKind}
    {arguments : List TypeArgument} {kinds : List (Option PropertyKind)}
    (hkind : Classifies ctx scope t kind) (hrest : ClassifiesAll ctx scope arguments kinds) :
    ClassifiesAll ctx scope (.type variance t :: arguments) (some kind :: kinds)

end

/-! ### Classification goes by the rules -/

/-- A class that is found to be no value has no supertype that would make it one. -/
theorem notValue_of_validatedValue {c : ClassDecl} {nullable : Bool}
    (h : (ctx.validatedValue c nullable).result {} = .ok none) :
    ∀ t ∈ c.superTypes, t.name ≠ ctx.markers.valueObject := by
  unfold validatedValue at h
  split at h
  · rename_i hnone
    simpa using hnone
  · split at h
    · cases h
    · -- a value that is found is not none
      rw [result_bind] at h
      split at h <;> cases h

theorem yields_plain {expand : AliasDecl → TypeRef → Resolution PropertyKind} {name : String}
    {arguments : List TypeArgument} {nullable : Bool} {type : TypeName}
    (hplain : ctx.IsPlain scope name)
    (htype : type = (ctx.baseName scope name).withNullable nullable)
    (h : Yields ctx (ctx.classifyArguments expand scope arguments)
      (ctx.ClassifiesAll scope arguments)) :
    Yields ctx (do
        let kinds ← ctx.classifyArguments expand scope arguments
        return PropertyKind.ofType ctx.markers type kinds)
      (ctx.Classifies scope (.mk name arguments nullable)) := by
  refine h.bind fun kinds hkinds => yields_pure ?_
  rw [htype]
  exact .plain hplain hkinds

mutual

/-- Classification goes by the rules if the expansion of aliases does. -/
theorem yields_classifies {expand : AliasDecl → TypeRef → Resolution PropertyKind}
    (hexpand : ∀ a reference,
      Yields ctx (expand a reference) (ctx.Classifies scope (a.expand reference))) :
    ∀ t : TypeRef, Yields ctx (ctx.classifyWith expand scope t) (ctx.Classifies scope t)
  | .mk name arguments nullable => by
    have harguments := yields_classifiesAll hexpand arguments
    rw [classifyWith]
    split
    · rename_i hr
      refine yields_plain ⟨by simp [hr], by simp [hr]⟩ ?_ harguments
      rw [baseName, hr]
    · rename_i hr
      refine yields_plain ⟨by simp [hr], by simp [hr]⟩ ?_ harguments
      rw [baseName, hr]
    · rename_i c hr
      have hc := DeclarationIndex.declares_of_resolve hr
      refine (yields_modelNames hc).bind fun names hnames => ?_
      cases names with
      | some names => exact yields_pure (.model hr hnames)
      | none =>
        have hvalue := (transparent_validatedValue hc nullable).yields fun _ h => h
        refine hvalue.bind fun v? hv => ?_
        cases v? with
        | some v => exact yields_pure (.value hr hnames hv)
        | none =>
          have hspecial : ¬ ctx.IsModelOrValue c := by
            rintro (hmodel | ⟨t, ht, hname⟩)
            · exact hmodel hnames
            · exact notValue_of_validatedValue hv t ht hname
          have hplain : ctx.IsPlain scope name := by
            refine ⟨by simp [hr], fun c' hr' => ?_⟩
            obtain rfl : c = c' := by simpa [hr] using hr'
            exact hspecial
          refine yields_plain hplain ?_ harguments
          rw [baseName, hr]
    · rename_i a hr
      refine (hexpand a _).bind fun kind hkind => ?_
      cases kind with
      | standard type inner =>
        refine harguments.bind fun kinds hkinds => yields_pure ?_
        exact .aliasedStandard hr hkind rfl hkinds
      | _ => exact yields_pure (.aliased hr hkind rfl)

theorem yields_classifiesArgument {expand : AliasDecl → TypeRef → Resolution PropertyKind}
    (hexpand : ∀ a reference,
      Yields ctx (expand a reference) (ctx.Classifies scope (a.expand reference))) :
    ∀ a : TypeArgument, Yields ctx (ctx.classifyArgument expand scope a) fun kind =>
      ∀ {arguments kinds}, ctx.ClassifiesAll scope arguments kinds →
        ctx.ClassifiesAll scope (a :: arguments) (kind :: kinds)
  | .star => by
    rw [classifyArgument]
    exact yields_pure fun hrest => .star hrest
  | .type _ t => by
    rw [classifyArgument]
    exact (yields_classifies hexpand t).bind fun _ hkind =>
      yields_pure fun hrest => .type hkind hrest

theorem yields_classifiesAll {expand : AliasDecl → TypeRef → Resolution PropertyKind}
    (hexpand : ∀ a reference,
      Yields ctx (expand a reference) (ctx.Classifies scope (a.expand reference))) :
    ∀ as : List TypeArgument, Yields ctx (ctx.classifyArguments expand scope as)
      (ctx.ClassifiesAll scope as)
  | [] => by
    rw [classifyArguments]
    exact yields_pure .nil
  | a :: as => by
    rw [classifyArguments]
    refine (yields_classifiesArgument hexpand a).bind fun kind hkind => ?_
    exact (yields_classifiesAll hexpand as).bind fun kinds hkinds => yields_pure (hkind hkinds)

end

/-- Whatever the number of expansions that are left, classification goes by the rules. -/
theorem yields_classifiesAt (scope : Option Scope) (depth : Nat) :
    ∀ t : TypeRef, Yields ctx (ctx.classifyAt scope depth t) (ctx.Classifies scope t) := by
  induction depth with
  | zero =>
    intro t
    rw [classifyAt]
    exact yields_classifies (fun _ _ => yields_throw) t
  | succ depth ih =>
    intro t
    rw [classifyAt]
    exact yields_classifies (fun a reference => ih (a.expand reference)) t

/-- The kind that classification gives a type is the one that the type has by the rules. -/
theorem classifies_of_classify {t : TypeRef} {cache : ResolutionCache} {kind : PropertyKind}
    (hcache : cache.Sound ctx) (h : (ctx.classify scope t).result cache = .ok kind) :
    ctx.Classifies scope t kind :=
  (yields_classifiesAt scope maxAliasDepth t).holds hcache h

/-! ### Inversion -/

/-- A validated value wraps the class that a name refers to, and the class is one of value
objects. -/
theorem wrapper_of_validatedValue {name : String} {c : ClassDecl} {nullable : Bool}
    {v : ValidatedValue} (hr : ctx.index.resolve name scope = .ofClass c)
    (hvalue : (ctx.validatedValue c nullable).result {} = .ok (some v)) :
    v.wrapperType = (TypeName.ofClass c).withNullable nullable ∧ ctx.IsModelOrValue c := by
  have hwrapper := yields_wrapper (DeclarationIndex.declares_of_resolve hr) nullable
  obtain ⟨htype, hobject⟩ := hwrapper.holds (ResolutionCache.sound_empty ctx) hvalue v rfl
  exact ⟨htype, .inr hobject⟩

section

variable {name : String} {arguments : List TypeArgument} {nullable : Bool} {kind : PropertyKind}

/-- A class that a model is generated for is a nested model. -/
theorem Classifies.eq_model {c : ClassDecl} {names : ModelNames}
    (h : ctx.Classifies scope (.mk name arguments nullable) kind)
    (hr : ctx.index.resolve name scope = .ofClass c)
    (hnames : ctx.modelNamesOf c = .ok (some names)) : kind = .model ⟨names, nullable⟩ := by
  have hmodel : ctx.IsModelOrValue c := .inl (by simp [hnames])
  cases h with
  | model hr' hnames' =>
    cases hr.symm.trans hr'
    cases hnames.symm.trans hnames'
    rfl
  | value hr' hnone =>
    cases hr.symm.trans hr'
    simp [hnames] at hnone
  | plain hplain => exact absurd hmodel (hplain.notSpecial c hr)
  | aliased hr' | aliasedStandard hr' => simp [hr] at hr'

/-- A class of value objects is a validated value. -/
theorem Classifies.eq_value {c : ClassDecl} {v : ValidatedValue}
    (h : ctx.Classifies scope (.mk name arguments nullable) kind)
    (hr : ctx.index.resolve name scope = .ofClass c) (hnone : ctx.modelNamesOf c = .ok none)
    (hvalue : (ctx.validatedValue c nullable).result {} = .ok (some v)) : kind = .value v := by
  have hspecial := (wrapper_of_validatedValue hr hvalue).2
  cases h with
  | model hr' hnames =>
    cases hr.symm.trans hr'
    simp [hnone] at hnames
  | value hr' _ hvalue' =>
    cases hr.symm.trans hr'
    cases hvalue.symm.trans hvalue'
    rfl
  | plain hplain => exact absurd hspecial (hplain.notSpecial c hr)
  | aliased hr' | aliasedStandard hr' => simp [hr] at hr'

/-- A plain name with its arguments is a type of that class. -/
theorem Classifies.of_plain (h : ctx.Classifies scope (.mk name arguments nullable) kind)
    (hplain : ctx.IsPlain scope name) : ∃ kinds, ctx.ClassifiesAll scope arguments kinds ∧
      kind = .ofType ctx.markers ((ctx.baseName scope name).withNullable nullable) kinds := by
  cases h with
  | model hr hnames => exact absurd (.inl (by simp [hnames])) (hplain.notSpecial _ hr)
  | value hr _ hvalue =>
    exact absurd (wrapper_of_validatedValue hr hvalue).2 (hplain.notSpecial _ hr)
  | plain _ hkinds => exact ⟨_, hkinds, rfl⟩
  | aliased hr | aliasedStandard hr => exact absurd hr (hplain.notAlias _)

/-- A reference to an alias has the kind of what it stands for, under the alias's name. -/
theorem Classifies.of_alias {a : AliasDecl}
    (h : ctx.Classifies scope (.mk name arguments nullable) kind)
    (hr : ctx.index.resolve name scope = .ofAlias a) :
    ∃ target, ctx.Classifies scope (a.expand (.mk name arguments nullable)) target ∧
      ((target.isStandard = false ∧ kind = target.wrappedIn (.ofAlias a)) ∨
        (target.isStandard = true ∧ ∃ kinds, ctx.ClassifiesAll scope arguments kinds ∧
          kind = .standard ((TypeName.ofAlias a).withNullable
            (a.expand (.mk name arguments nullable)).nullable) kinds)) := by
  cases h with
  | model hr' | value hr' => simp [hr] at hr'
  | plain hplain => exact absurd hr (hplain.notAlias a)
  | aliased hr' hkind hspecial =>
    cases hr.symm.trans hr'
    exact ⟨_, hkind, .inl ⟨hspecial, rfl⟩⟩
  | aliasedStandard hr' hkind hstandard hkinds =>
    cases hr.symm.trans hr'
    exact ⟨_, hkind, .inr ⟨hstandard, _, hkinds, rfl⟩⟩

end

end Context

end ModelForge
