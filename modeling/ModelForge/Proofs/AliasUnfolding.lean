/-
Unfolding aliases in a type.

A type may be written with aliases or with what they stand for, and an alias may be passed to
another one, which puts it at several places.  Classification takes both for the same:

* `DeclarationIndex.Unfolds` — a type with some references to aliases replaced, at any depth, by
  what they stand for;
* `DeclarationIndex.Unfolds.substitute` — unfolding what type parameters stand for unfolds the
  type in which they are replaced, so that the arguments of an alias may be unfolded before the
  alias (`Unfolds.replace_arguments`);
* `PropertyKind.role` — a kind without the names that it shows;
* `Context.Classifies.role_eq` — an unfolded type has a kind of the same role.

The statement about classification is `Context.role_eq_of_unfolds`.
-/
import Mathlib.Data.Option.Basic
import ModelForge.Proofs.ClassificationRules
import ModelForge.Proofs.Decoding

namespace ModelForge

/-! ### Unfolding -/

namespace DeclarationIndex

variable {idx : DeclarationIndex} {scope : Option Scope}

mutual

/-- Some references to aliases are replaced by what they stand for, and others are kept. What has
taken the place of a reference may be unfolded in turn. -/
inductive Unfolds (idx : DeclarationIndex) (scope : Option Scope) : TypeRef → TypeRef → Prop
  | keep {name : String} {arguments arguments' : List TypeArgument} {nullable : Bool}
    (harguments : UnfoldsAll idx scope arguments arguments') :
    Unfolds idx scope (.mk name arguments nullable) (.mk name arguments' nullable)
  | replace {name : String} {arguments : List TypeArgument} {nullable : Bool} {a : AliasDecl}
    {t' : TypeRef} (hr : idx.resolve name scope = .ofAlias a)
    (ht : Unfolds idx scope (a.expand (.mk name arguments nullable)) t') :
    Unfolds idx scope (.mk name arguments nullable) t'

/-- Arguments are unfolded one by one, variances and stars stay. -/
inductive UnfoldsAll (idx : DeclarationIndex) (scope : Option Scope) :
    List TypeArgument → List TypeArgument → Prop
  | nil : UnfoldsAll idx scope [] []
  | star {arguments arguments' : List TypeArgument}
    (hrest : UnfoldsAll idx scope arguments arguments') :
    UnfoldsAll idx scope (.star :: arguments) (.star :: arguments')
  | type {variance : Variance} {t t' : TypeRef} {arguments arguments' : List TypeArgument}
    (ht : Unfolds idx scope t t') (hrest : UnfoldsAll idx scope arguments arguments') :
    UnfoldsAll idx scope (.type variance t :: arguments) (.type variance t' :: arguments')

end

mutual

/-- All references may be kept. -/
theorem Unfolds.refl : ∀ t : TypeRef, idx.Unfolds scope t t
  | .mk _ arguments _ => .keep (UnfoldsAll.refl arguments)

theorem UnfoldsAll.refl : ∀ as : List TypeArgument, idx.UnfoldsAll scope as as
  | [] => .nil
  | .star :: as => .star (UnfoldsAll.refl as)
  | .type _ t :: as => .type (Unfolds.refl t) (UnfoldsAll.refl as)

end

theorem expand_orNullable (a : AliasDecl) (name : String) (arguments : List TypeArgument)
    (nullable b : Bool) : (a.expand (.mk name arguments nullable)).orNullable b =
      a.expand (.mk name arguments (nullable || b)) := by
  refine TypeRef.ext rfl rfl ?_
  simp only [AliasDecl.expand, TypeRef.nullable_orNullable, TypeRef.nullable_mk, Bool.or_assoc]
  rfl

/-- Unfolding does not look at the nullability of a reference, it passes it on. -/
theorem Unfolds.orNullable (b : Bool) : ∀ {t t' : TypeRef}, idx.Unfolds scope t t' →
    idx.Unfolds scope (t.orNullable b) (t'.orNullable b)
  | _, _, .keep harguments => .keep harguments
  | _, _, .replace hr ht => by
    have hrest := ht.orNullable b
    rw [expand_orNullable] at hrest
    exact .replace hr hrest

/-! ### Unfolding what type parameters stand for -/

theorem UnfoldsAll.argument? {as as' : List TypeArgument} (h : idx.UnfoldsAll scope as as')
    (name : String) (nullable : Bool) (i : Nat) :
    Option.Rel (idx.Unfolds scope) ((TypeRef.mk name as nullable).argument? i)
      ((TypeRef.mk name as' nullable).argument? i) := by
  unfold TypeRef.argument?
  dsimp only [TypeRef.arguments_mk]
  induction as generalizing as' i with
  | nil =>
    cases h
    exact .none
  | cons a as ih =>
    cases h with
    | star hrest =>
      cases i with
      | zero => exact .none
      | succ i => exact ih hrest i
    | type ht hrest =>
      cases i with
      | zero => exact .some ht
      | succ i => exact ih hrest i

/-- The bindings of two references that pass related types are related. -/
theorem rel_ofList {r : TypeRef → TypeRef → Prop} {passed passed' : Nat → Option TypeRef}
    (h : ∀ i, Option.Rel r (passed i) (passed' i)) (parameters : List (String × Nat))
    (name : String) :
    Option.Rel r
      (TypeRef.Bindings.ofList (parameters.filterMap fun p => (passed p.2).map (p.1, ·)) name)
      (TypeRef.Bindings.ofList (parameters.filterMap fun p => (passed' p.2).map (p.1, ·))
        name) := by
  induction parameters with
  | nil => exact .none
  | cons p parameters ih =>
    have hp := h p.2
    rw [List.filterMap_cons, List.filterMap_cons]
    generalize passed p.2 = bound at hp
    generalize passed' p.2 = bound' at hp
    cases hp with
    | none => exact ih
    | some hbound =>
      simp only [Option.map_some, TypeRef.Bindings.ofList]
      -- a later binding of the same name counts
      generalize TypeRef.Bindings.ofList (parameters.filterMap _) name = later at ih ⊢
      generalize TypeRef.Bindings.ofList (parameters.filterMap _) name = later' at ih ⊢
      cases ih with
      | some hlater => exact .some hlater
      | none =>
        dsimp only
        split
        · exact .some hbound
        · exact .none

section

variable {bindings bindings' : TypeRef.Bindings}

mutual

/-- Where the types that names stand for are unfolded, so is a type in which they are replaced. -/
theorem Unfolds.substitute
    (h : ∀ name, Option.Rel (idx.Unfolds scope) (bindings name) (bindings' name)) :
    ∀ t : TypeRef, idx.Unfolds scope (t.substitute bindings) (t.substitute bindings')
  | .mk name [] nullable => by
    have hname := h name
    rw [TypeRef.substitute, TypeRef.substitute]
    generalize bindings name = bound at hname
    generalize bindings' name = bound' at hname
    cases hname with
    | none => exact .keep .nil
    | some hbound => exact hbound.orNullable nullable
  | .mk name (a :: as) nullable => by
    rw [TypeRef.substitute, TypeRef.substitute, ← TypeRef.substituteList, ← TypeRef.substituteList]
    exact .keep (UnfoldsAll.substitute h (a :: as))

theorem UnfoldsAll.substitute
    (h : ∀ name, Option.Rel (idx.Unfolds scope) (bindings name) (bindings' name)) :
    ∀ as : List TypeArgument, idx.UnfoldsAll scope (TypeRef.substituteList bindings as)
      (TypeRef.substituteList bindings' as)
  | [] => .nil
  | .star :: as => .star (UnfoldsAll.substitute h as)
  | .type _ t :: as => .type (Unfolds.substitute h t) (UnfoldsAll.substitute h as)

end

end

/-- What an alias stands for is unfolded where the arguments are. -/
theorem Unfolds.expand {as as' : List TypeArgument} (h : idx.UnfoldsAll scope as as')
    (a : AliasDecl) (name : String) (nullable : Bool) :
    idx.Unfolds scope (a.expand (.mk name as nullable)) (a.expand (.mk name as' nullable)) :=
  (Unfolds.substitute (rel_ofList (h.argument? name nullable) a.typeParameters.zipIdx)
    a.target).orNullable nullable

/-- What a reference to an alias passes may be unfolded before the reference is replaced. -/
theorem Unfolds.replace_arguments {as as' : List TypeArgument} {a : AliasDecl} {name : String}
    (hr : idx.resolve name scope = .ofAlias a) (h : idx.UnfoldsAll scope as as')
    (nullable : Bool) :
    idx.Unfolds scope (.mk name as nullable) (a.expand (.mk name as' nullable)) :=
  .replace hr (.expand h a name nullable)

end DeclarationIndex

/-! ### Roles -/

namespace PropertyKind

/-- How a property takes part in validation, without the names that its type shows: of a standard
kind only that it is standard, and of a value all but the wrapper. -/
def role : PropertyKind → PropertyKind
  | standard _ _ => standard default []
  | value v => value { v with wrapper := default }
  | optionalValue v nullable => optionalValue { v with wrapper := default } nullable
  | kind => kind

theorem role_wrappedIn (wrapper : TypeName) (kind : PropertyKind) :
    (kind.wrappedIn wrapper).role = kind.role := by
  cases kind <;> rfl

theorem role_eq_standard {kind : PropertyKind} (h : kind.isStandard = true) :
    kind.role = standard default [] := by
  cases kind with
  | standard => rfl
  | _ => cases h

theorem isStandard_role (kind : PropertyKind) : kind.role.isStandard = kind.isStandard := by
  cases kind <;> rfl

/-- The role of a container is decided by the role of its content. -/
theorem role_inContainer? (container : Container) (inner : PropertyKind) (nullable : Bool) :
    (inContainer? container inner nullable).map role =
      (inContainer? container inner.role nullable).map role := by
  cases container <;> cases inner <;> rfl

/-- The role of a type is decided by its class, its nullability and the roles of its arguments. -/
theorem role_ofType (m : Markers) (type : TypeName) (kinds : List (Option PropertyKind)) :
    (ofType m type kinds).role = (ofType m type (kinds.map (·.map role))).role := by
  have hgetD : ∀ (kind? : Option PropertyKind) (kinds' : List (Option PropertyKind)),
      (kind?.getD (standard type kinds')).role = (kind?.map role).getD (standard default []) := by
    intro kind? kinds'
    cases kind? <;> rfl
  unfold ofType
  cases m.container? type.canonicalName with
  | none => rfl
  | some container =>
    match kinds with
    | [] | [none] | none :: _ :: _ | some _ :: _ :: _ => rfl
    | [some inner] =>
      show ((inContainer? container inner type.nullable).getD _).role =
        ((inContainer? container inner.role type.nullable).getD _).role
      rw [hgetD, hgetD, role_inContainer?]

end PropertyKind

/-! ### Unfolding keeps roles -/

namespace Context

open DeclarationIndex PropertyKind

variable {ctx : Context} {scope : Option Scope}

/-- A reference to an alias has the role of what it stands for. -/
theorem Classifies.role_of_alias {name : String} {arguments : List TypeArgument} {nullable : Bool}
    {kind : PropertyKind} {a : AliasDecl}
    (h : ctx.Classifies scope (.mk name arguments nullable) kind)
    (hr : ctx.index.resolve name scope = .ofAlias a) :
    ∃ target, ctx.Classifies scope (a.expand (.mk name arguments nullable)) target ∧
      kind.role = target.role := by
  obtain ⟨target, htarget, ⟨-, rfl⟩ | ⟨hstandard, kinds, -, rfl⟩⟩ := h.of_alias hr
  · exact ⟨target, htarget, role_wrappedIn _ _⟩
  · exact ⟨target, htarget, (role_eq_standard hstandard).symm⟩

mutual

/-- A type and an unfolded one have kinds of the same role. -/
theorem Classifies.role_eq {t : TypeRef} {kind : PropertyKind} :
    ctx.Classifies scope t kind → ∀ {t' kind'}, ctx.index.Unfolds scope t t' →
      ctx.Classifies scope t' kind' → kind.role = kind'.role
  | .model hr hnames, _, _, .keep _, h' => by rw [h'.eq_model hr hnames]
  | .value hr hnone hvalue, _, _, .keep _, h' => by rw [h'.eq_value hr hnone hvalue]
  | .plain hplain hkinds, _, _, .keep harguments, h' => by
    obtain ⟨kinds', hkinds', rfl⟩ := h'.of_plain hplain
    rw [role_ofType, role_ofType _ _ kinds', hkinds.roles_eq harguments hkinds']
  | .aliased hr hkind _, _, _, .keep harguments, h' => by
    obtain ⟨target, htarget, hrole⟩ := h'.role_of_alias hr
    rw [role_wrappedIn, hrole]
    exact hkind.role_eq (.expand harguments _ _ _) htarget
  | .aliasedStandard hr hkind hstandard _, _, _, .keep harguments, h' => by
    obtain ⟨target, htarget, hrole⟩ := h'.role_of_alias hr
    rw [hrole, ← hkind.role_eq (.expand harguments _ _ _) htarget, role_eq_standard hstandard,
      role]
  | .model hr _, _, _, .replace hr' _, _ => nomatch hr.symm.trans hr'
  | .value hr _ _, _, _, .replace hr' _, _ => nomatch hr.symm.trans hr'
  | .plain hplain _, _, _, .replace hr _, _ => absurd hr (hplain.notAlias _)
  | .aliased hr hkind _, _, _, .replace hr' ht, h' => by
    obtain rfl := Referent.ofAlias.inj (hr.symm.trans hr')
    rw [role_wrappedIn]
    exact hkind.role_eq ht h'
  | .aliasedStandard hr hkind hstandard _, _, _, .replace hr' ht, h' => by
    obtain rfl := Referent.ofAlias.inj (hr.symm.trans hr')
    rw [← hkind.role_eq ht h', role_eq_standard hstandard, role]

theorem ClassifiesAll.roles_eq {as : List TypeArgument} {kinds : List (Option PropertyKind)} :
    ctx.ClassifiesAll scope as kinds → ∀ {as' kinds'}, ctx.index.UnfoldsAll scope as as' →
      ctx.ClassifiesAll scope as' kinds' → kinds.map (·.map role) = kinds'.map (·.map role)
  | .nil, _, _, .nil, .nil => rfl
  | .star hrest, _, _, .star harguments, .star hrest' => by
    rw [List.map_cons, List.map_cons, hrest.roles_eq harguments hrest', Option.map_none]
  | .type hkind hrest, _, _, .type ht harguments, .type hkind' hrest' => by
    rw [List.map_cons, List.map_cons, hrest.roles_eq harguments hrest', Option.map_some,
      Option.map_some, hkind.role_eq ht hkind']

end

theorem Classifies.isStandard_eq {t t' : TypeRef} {kind kind' : PropertyKind}
    (h : ctx.Classifies scope t kind) (ht : ctx.index.Unfolds scope t t')
    (h' : ctx.Classifies scope t' kind') : kind.isStandard = kind'.isStandard := by
  rw [← isStandard_role kind, h.role_eq ht h', isStandard_role]

/-- **Unfolding aliases does not change how a type takes part in validation.**  A type is classified
and so is the type in which some references to aliases, at any depth, are replaced by what they
stand for.  The kinds are of the same form, and where they are not standard they agree in all but
the wrapper of a validated value: in the names of the model, in the raw type and the failure type,
and in the inner and the outer nullability. -/
theorem role_eq_of_unfolds {t t' : TypeRef} {cache cache' : ResolutionCache}
    {kind kind' : PropertyKind} (ht : ctx.index.Unfolds scope t t') (hcache : cache.Sound ctx)
    (hcache' : cache'.Sound ctx) (h : (ctx.classify scope t).result cache = .ok kind)
    (h' : (ctx.classify scope t').result cache' = .ok kind') : kind.role = kind'.role :=
  (classifies_of_classify hcache h).role_eq ht (classifies_of_classify hcache' h')

end Context

/-! ### A depth, perhaps

The option and its content are both written by aliases, and each of them is written nullable. -/

namespace Sample

def depth : AliasDecl :=
  ⟨"t", "Depth", [], .mk "t.Deep" [] true, [], none⟩

def perhaps : AliasDecl :=
  ⟨"t", "Perhaps", ["T"], applied "arrow.core.Option" [.named "T"], [], none⟩

def aliasing : Context :=
  ⟨⟨context.index.entries ++ [⟨.ofAlias depth, "t.json"⟩, ⟨.ofAlias perhaps, "t.json"⟩]⟩, {}⟩

def perhapsDepth : TypeRef :=
  .mk "t.Perhaps" [.type .invariant (.named "t.Depth")] true

def optionalDeep : TypeRef :=
  .mk "arrow.core.Option" [.type .invariant (.mk "t.Deep" [] true)] true

end Sample

theorem Context.role_eq_of_unfolds_perhapsDepth :
    Sample.aliasing.index.Unfolds none Sample.perhapsDepth Sample.optionalDeep ∧
    ∃ kind kind', (Sample.aliasing.classify none Sample.perhapsDepth).result {} = .ok kind ∧
      (Sample.aliasing.classify none Sample.optionalDeep).result {} = .ok kind' ∧
      kind.role = kind'.role ∧ kind'.label = "optional validated value" := by
  have hempty := ResolutionCache.sound_empty Sample.aliasing
  have hunfolds : Sample.aliasing.index.Unfolds none Sample.perhapsDepth Sample.optionalDeep :=
    .replace_arguments (a := Sample.perhaps) rfl
      (.type (.replace_arguments (a := Sample.depth) rfl .nil false) .nil) true
  have hlabel : ((Sample.aliasing.classify none Sample.perhapsDepth).result {}).map (·.label) =
      .ok "optional validated value" := by
    decide +kernel
  have hlabel' : ((Sample.aliasing.classify none Sample.optionalDeep).result {}).map (·.label) =
      .ok "optional validated value" := by
    decide +kernel
  obtain ⟨kind, h, -⟩ := Json.map_eq_ok_iff.1 hlabel
  obtain ⟨kind', h', hkind'⟩ := Json.map_eq_ok_iff.1 hlabel'
  exact ⟨hunfolds, kind, kind', h, h', Context.role_eq_of_unfolds hunfolds hempty hempty h h',
    hkind'⟩

end ModelForge
