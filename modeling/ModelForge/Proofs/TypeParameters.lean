/-
What is left of type parameters.

A type is written in one scope and used in another: by way of an alias, along the links to a
validator interface, where a property is inherited, and where a class wraps a raw value.  On the
first two ways the type parameters are replaced by what is passed for them, at any depth.  On
the other two they stay, and nothing looks at what is passed.

* `Context.Binds` — wherever an alias, a supertype or a companion is written with a name, the name
  is a type parameter there;
* `Context.not_shows_of_failsWith` — bound names are not seen in failure types;
* `Context.yields_written` — they are seen in a kind only if the type was written with them, or
  a class wraps a type that was;
* `Context.yields_parameter`, `Context.yields_wrappedParameter` — the type parameters that stay.

The statement about analyzed targets is `Context.written_of_modelAlone`.
-/
import ModelForge.Proofs.FailureType
import ModelForge.Proofs.PropertyOrder
import ModelForge.Proofs.TypeArguments

namespace ModelForge

/-! ### Declarations that bind a name -/

/-- Those of the names that are read as `x` are type parameters of the scope. -/
def Scope.Covers (s : Scope) (x : String) (names : List String) : Prop :=
  ∀ name ∈ names, (TypeName.ofQualified name).IsNamed x → name ∈ s.typeParameters

instance (s : Scope) (x : String) (names : List String) : Decidable (s.Covers x names) :=
  inferInstanceAs (Decidable (∀ name ∈ names, _))

theorem Scope.Covers.subset {s : Scope} {x : String} {names names' : List String}
    (h : s.Covers x names) (hsubset : names' ⊆ names) : s.Covers x names' :=
  fun name hname => h name (hsubset hname)

/-- The supertypes of the scope are written with `x` only where it is a type parameter. -/
def Scope.Binds (s : Scope) (x : String) : Prop :=
  ∀ t ∈ s.superTypes, s.Covers x t.mentions

instance (s : Scope) (x : String) : Decidable (s.Binds x) :=
  inferInstanceAs (Decidable (∀ t ∈ s.superTypes, _))

/-- The class is not called `x`, and its supertypes and those of its companion are written with
`x` only as a type parameter. -/
def ClassDecl.Binds (c : ClassDecl) (x : String) : Prop :=
  ¬ (TypeName.ofClass c).IsNamed x ∧ c.scope.Binds x ∧ ∀ k ∈ c.companionScope?, k.Binds x

instance (c : ClassDecl) (x : String) : Decidable (c.Binds x) :=
  inferInstanceAs (Decidable (_ ∧ _ ∧ _))

/-- The alias is not called `x`, its target passes types for the type parameters of other
aliases, and is written with `x` only as a type parameter without arguments. -/
def AliasDecl.Binds (idx : DeclarationIndex) (a : AliasDecl) (x : String) : Prop :=
  ¬ (TypeName.ofAlias a).IsNamed x ∧ a.target.isSaturated idx = true ∧
    ∀ name ∈ a.target.mentions, (TypeName.ofQualified name).IsNamed x →
      name ∈ a.typeParameters ∧ name ∉ a.target.heads

instance (idx : DeclarationIndex) (a : AliasDecl) (x : String) : Decidable (a.Binds idx x) :=
  inferInstanceAs (Decidable (_ ∧ _ ∧ _))

/-- The declaration is written with `x` only as a type parameter. Its properties do not
count. -/
def Declaration.Binds (idx : DeclarationIndex) (x : String) : Declaration → Prop
  | ofClass c => c.Binds x
  | ofAlias a => a.Binds idx x

instance (idx : DeclarationIndex) (x : String) : (d : Declaration) → Decidable (d.Binds idx x)
  | .ofClass c => inferInstanceAs (Decidable (c.Binds x))
  | .ofAlias a => inferInstanceAs (Decidable (a.Binds idx x))

namespace DeclarationIndex

theorem mem_declarations_of_get? {idx : DeclarationIndex} {name : String} {d : Declaration}
    (h : idx.get? name = some d) : d ∈ idx.declarations := by
  obtain ⟨e, he, rfl⟩ := Option.map_eq_some_iff.1 h
  exact List.mem_map_of_mem (List.mem_of_find?_eq_some he)

theorem get?_of_declares {idx : DeclarationIndex} {c : ClassDecl} (h : idx.Declares c) :
    idx.get? c.qualifiedName = some (.ofClass c) := by
  obtain ⟨d, hd, hc⟩ := Option.bind_eq_some_iff.1 h
  cases d with
  | ofClass c' =>
    cases hc
    exact hd
  | ofAlias a => cases hc

theorem get?_of_resolve_ofAlias {idx : DeclarationIndex} {name : String} {scope : Option Scope}
    {a : AliasDecl} (h : idx.resolve name scope = .ofAlias a) :
    idx.get? name = some (.ofAlias a) := by
  unfold resolve at h
  split at h
  · cases h
  · split at h
    · cases h
    · rename_i a' hget
      cases h
      exact hget
    · cases h

end DeclarationIndex

namespace Context

/-- Wherever an alias, a supertype or a companion is written with `x`, it is a type parameter of
the declaration. -/
def Binds (ctx : Context) (x : String) : Prop :=
  ∀ d ∈ ctx.index.declarations, d.Binds ctx.index x

instance (ctx : Context) (x : String) : Decidable (ctx.Binds x) :=
  inferInstanceAs (Decidable (∀ d ∈ ctx.index.declarations, _))

/-- A class of value objects wraps a type that is written with `x`. -/
def Wraps (ctx : Context) (x : String) : Prop :=
  ∃ c ∈ ctx.index.classes, ∃ marker ∈ c.superTypes, marker.name = ctx.markers.valueObject ∧
    ∃ wrapped ∈ marker.argument? 0, wrapped.Writes x

instance (ctx : Context) (x : String) : Decidable (ctx.Wraps x) :=
  inferInstanceAs (Decidable (∃ c ∈ ctx.index.classes, ∃ marker ∈ c.superTypes, _ ∧
    ∃ wrapped ∈ marker.argument? 0, _))

variable {ctx : Context} {x : String}

theorem Binds.ofClass (h : ctx.Binds x) {c : ClassDecl} (hc : ctx.index.Declares c) : c.Binds x :=
  h _ (DeclarationIndex.mem_declarations_of_get? (DeclarationIndex.get?_of_declares hc))

theorem Binds.ofAlias (h : ctx.Binds x) {name : String} {a : AliasDecl}
    (ha : ctx.index.get? name = some (.ofAlias a)) : a.Binds ctx.index x :=
  h _ (DeclarationIndex.mem_declarations_of_get? ha)

/-- A class is called `x` only if it is written so and not declared. -/
theorem isNamed_of_baseName (hx : ctx.Binds x) {scope : Option Scope} {name : String}
    (h : (ctx.baseName scope name).IsNamed x) : (TypeName.ofQualified name).IsNamed x := by
  unfold baseName at h
  split at h
  · rename_i c hr
    exact absurd h (hx.ofClass (DeclarationIndex.declares_of_resolve hr)).1
  · rename_i a hr
    exact absurd h (hx.ofAlias (DeclarationIndex.get?_of_resolve_ofAlias hr)).1
  · exact h
  · exact h

mutual

/-- A type that is written out shows only what the reference is written with. -/
theorem writes_of_typeNameOf (hx : ctx.Binds x) {scope : Option Scope} :
    ∀ t : TypeRef, (ctx.typeNameOf scope t).Shows x → t.Writes x
  | .mk name arguments nullable, h => by
    rw [typeNameOf, TypeName.shows_withArguments] at h
    rcases h with h | h
    · exact ⟨name, TypeRef.name_mem_mentions _, isNamed_of_baseName hx h⟩
    · exact (isAmong_of_typeNamesOf hx arguments h).mono (List.subset_cons_self _ _)

theorem isAmong_of_typeNameOfArgument (hx : ctx.Binds x) {scope : Option Scope} :
    ∀ a : TypeArgument, TypeName.ArgumentShows x (ctx.typeNameOfArgument scope a) →
      IsAmong x (TypeRef.mentionsOfArgument a)
  | .star, h => by
    rw [typeNameOfArgument] at h
    exact h.elim
  | .type _ t, h => by
    rw [typeNameOfArgument] at h
    exact writes_of_typeNameOf hx t h

theorem isAmong_of_typeNamesOf (hx : ctx.Binds x) {scope : Option Scope} :
    ∀ as : List TypeArgument, TypeName.AnyShows x (ctx.typeNamesOf scope as) →
      IsAmong x (TypeRef.mentionsOfList as)
  | [], h => by
    rw [typeNamesOf] at h
    exact h.elim
  | a :: as, h => by
    rw [typeNamesOf] at h
    rcases h with h | h
    · exact (isAmong_of_typeNameOfArgument hx a h).mono (List.subset_append_left _ _)
    · exact (isAmong_of_typeNamesOf hx as h).mono (List.subset_append_right _ _)

end

theorem resolve_of_mem_typeParameters {s : Scope} {parameter : String}
    (h : parameter ∈ s.typeParameters) :
    ∃ index, ctx.index.resolve parameter (some s) = .typeParameter index := by
  obtain ⟨index, hindex⟩ := Option.isSome_iff_exists.1 (List.isSome_idxOf?.2 h)
  refine ⟨index, ?_⟩
  rw [DeclarationIndex.resolve, Option.bind_some]
  simp only [Scope.parameterIndex?, hindex]

/-! ### Failure types -/

/-- What the type parameters of a level stand for does not show `x`. -/
def HidesBound (x : String) (l : Level) : Prop :=
  ∀ i t, l.bound? i = some t → ¬ t.Shows x

mutual

/-- A reference does not mean a type that shows `x` where it is written with `x` only as a type
parameter. -/
theorem not_shows_of_meaning (hx : ctx.Binds x) {l : Level} (hl : HidesBound x l) :
    ∀ (reference : TypeRef) {t : TypeName}, l.scope.Covers x reference.mentions →
      ctx.meaning l reference = some t → ¬ t.Shows x
  | .mk name arguments nullable, t, hcovers, ht => by
    by_cases hp : ∃ index, ctx.index.resolve name (some l.scope) = .typeParameter index
    · obtain ⟨index, hr⟩ := hp
      rw [meaning, hr] at ht
      obtain ⟨u, hu, rfl⟩ := Option.map_eq_some_iff.1 ht
      rw [TypeName.shows_withNullable]
      exact hl index u hu
    · rw [meaning_of_not_parameter (not_exists.1 hp)] at ht
      obtain ⟨ts, hts, rfl⟩ := Option.map_eq_some_iff.1 ht
      rw [TypeName.shows_withArguments]
      rintro (h | h)
      · -- a name that is read as `x` is covered, so that it would be a type parameter
        have hmem := hcovers name (TypeRef.name_mem_mentions _) (isNamed_of_baseName hx h)
        exact hp (resolve_of_mem_typeParameters hmem)
      · exact not_anyShows_of_meanings hx hl arguments (hcovers.subset (List.subset_cons_self _ _))
          hts h

theorem not_argumentShows_of_argumentMeaning (hx : ctx.Binds x) {l : Level}
    (hl : HidesBound x l) :
    ∀ (a : TypeArgument) {t : Option TypeName}, l.scope.Covers x (TypeRef.mentionsOfArgument a) →
      ctx.argumentMeaning l a = some t → ¬ TypeName.ArgumentShows x t
  | .star, t, _, ht => by
    rw [argumentMeaning] at ht
    cases ht
    exact id
  | .type _ reference, t, hcovers, ht => by
    rw [argumentMeaning] at ht
    obtain ⟨u, hu, rfl⟩ := Option.map_eq_some_iff.1 ht
    exact not_shows_of_meaning hx hl reference hcovers hu

theorem not_anyShows_of_meanings (hx : ctx.Binds x) {l : Level} (hl : HidesBound x l) :
    ∀ (as : List TypeArgument) {ts : List (Option TypeName)},
      l.scope.Covers x (TypeRef.mentionsOfList as) → ctx.meanings l as = some ts →
        ¬ TypeName.AnyShows x ts
  | [], ts, _, hts => by
    rw [meanings] at hts
    cases hts
    exact id
  | a :: as, ts, hcovers, hts => by
    rw [meanings] at hts
    split at hts
    · rename_i u us hu hus
      cases hts
      rintro (h | h)
      · exact not_argumentShows_of_argumentMeaning hx hl a
          (hcovers.subset (List.subset_append_left _ _)) hu h
      · exact not_anyShows_of_meanings hx hl as (hcovers.subset (List.subset_append_right _ _))
          hus h
    · cases hts

end

/-- One link up, the type parameters stand for what the link passes, which is written in the
scope below. -/
theorem hidesBound_enter (hx : ctx.Binds x) {l : Level} (hl : HidesBound x l) {link : Link}
    (hcovers : l.scope.Covers x link.reference.mentions) : HidesBound x (ctx.enter l link) := by
  intro i t ht
  rw [bound?_enter] at ht
  obtain ⟨reference, hreference, ht⟩ := Option.bind_eq_some_iff.1 ht
  exact not_shows_of_meaning hx hl reference
    (hcovers.subset (TypeRef.mentions_argument? hreference)) ht

/-- Along the links to a validator interface, what type parameters stand for does not show `x`,
and the validator interface is written with `x` only as a type parameter. -/
theorem covers_of_leadsFirst (hx : ctx.Binds x) {scope : Scope} {entered : List String}
    {links : List Link} {validator : TypeRef}
    (h : ctx.LeadsFirst scope entered links validator) :
    ∀ l : Level, l.scope = scope → scope.Binds x → HidesBound x l →
      HidesBound x (links.foldl ctx.enter l) ∧
        (links.foldl ctx.enter l).scope.Covers x validator.mentions := by
  induction h with
  | listed hlisted =>
    rintro l rfl hscope hl
    exact ⟨hl, hscope _ (List.mem_of_find?_eq_some hlisted)⟩
  | inherited _ hsuper _ hresolve _ _ ih =>
    rintro l rfl hscope hl
    have hmem := hsuper ▸ List.mem_append_right _ List.mem_cons_self
    have hc := hx.ofClass (DeclarationIndex.declares_of_resolve hresolve)
    exact ih _ rfl hc.2.1 (hidesBound_enter hx hl (hscope _ hmem))

/-- Bound names are not seen in failure types: along the chain of a validator, type parameters
are replaced at any depth. -/
theorem not_shows_of_failsWith (hx : ctx.Binds x) {value : ClassDecl}
    (hvalue : ctx.index.Declares value) {failure : TypeName} (h : ctx.FailsWith value failure) :
    ¬ failure.Shows x := by
  obtain ⟨root, links, validator, input, variance, reference, output, hroot, hfirst, harguments,
    hmeaning⟩ := h
  have hground : HidesBound x (Level.ground root) := nofun
  obtain ⟨hl, hcovers⟩ := covers_of_leadsFirst hx hfirst (Level.ground root) rfl
    ((hx.ofClass hvalue).2.2 root hroot) hground
  have hmentions : reference.mentions ⊆ validator.mentions :=
    TypeRef.mentions_argument (i := 1) (by rw [harguments]; rfl)
  exact not_shows_of_meaning hx hl reference (hcovers.subset hmentions) hmeaning

/-! ### Classification -/

open Resolution PropertyKind

/-- What can be seen in a kind, the type was written with, or the type that a class of value
objects wraps. -/
def Written (ctx : Context) (x : String) (names : List String) (shown : Prop) : Prop :=
  shown → IsAmong x names ∨ ctx.Wraps x

theorem Written.subset {names names' : List String} {shown : Prop}
    (h : ctx.Written x names shown) (hsubset : names ⊆ names') : ctx.Written x names' shown :=
  fun hshown => (h hshown).imp_left (·.mono hsubset)

/-- What a saturated reference to an alias is expanded to shows only what the reference is written
with. -/
def ExpandsWritten (ctx : Context) (x : String)
    (expand : AliasDecl → TypeRef → Resolution PropertyKind) : Prop :=
  ∀ a reference, ctx.index.get? reference.name = some (.ofAlias a) →
    reference.isSaturated ctx.index = true → Yields ctx (expand a reference) fun kind =>
      ctx.Written x reference.mentions (kind.Shows x)

/-- A saturated reference to an alias stands for a type that is written with `x` only if the
reference is: a type parameter of the alias is replaced by what is passed for it. -/
theorem writes_of_expand (hx : ctx.Binds x) {a : AliasDecl} {reference : TypeRef}
    (ha : ctx.index.get? reference.name = some (.ofAlias a))
    (hsaturated : reference.isSaturated ctx.index = true) (h : (a.expand reference).Writes x) :
    reference.Writes x := by
  obtain ⟨name, hname, hnamed⟩ := h
  rw [AliasDecl.expand, TypeRef.mentions_orNullable] at hname
  rcases TypeRef.mentions_substitute a.target hname with
    ⟨htarget, hfree⟩ | ⟨parameter, bound, hbound, hmem⟩
  · -- where the target is written with `x`, it is a type parameter, and so it is bound
    obtain ⟨hparameter, hhead⟩ := (hx.ofAlias ha).2.2 name htarget hnamed
    obtain ⟨bound, hbound⟩ := AliasDecl.exists_bindings ha hsaturated hparameter
    rcases hfree with hfree | hfree
    · rw [hbound] at hfree
      cases hfree
    · exact absurd hfree hhead
  · obtain ⟨i, hi⟩ := AliasDecl.argument?_of_bindings hbound
    exact ⟨name, TypeRef.mentions_argument? hi hmem, hnamed⟩

theorem yields_validatedValue (hx : ctx.Binds x) {c : ClassDecl} (hc : ctx.index.Declares c)
    (nullable : Bool) : Yields ctx (ctx.validatedValue c nullable) fun v? =>
      ∀ v ∈ v?, v.Shows x → ctx.Wraps x := by
  unfold validatedValue
  split
  · exact yields_pure nofun
  · rename_i marker hmarker
    split
    · exact yields_throw
    · rename_i wrapped hwrapped
      obtain ⟨hresult, htransparent⟩ := failureType_spec hc
      have hfailure : Yields ctx (ctx.failureType c) fun failure => ¬ failure.Shows x := by
        refine htransparent.yields fun failure h => ?_
        rw [hresult (ResolutionCache.sound_empty ctx)] at h
        exact not_shows_of_failsWith hx hc (failureTypeOf_eq_ok_iff.1 h)
      refine hfailure.bind fun failure hfailure => yields_pure ?_
      rintro v ⟨⟩ (h | h | h)
      · exact absurd ((TypeName.shows_of_arguments_nil rfl).1 h) (hx.ofClass hc).1
      · rw [TypeName.shows_withNullable] at h
        have hname := List.find?_some hmarker
        exact ⟨c, (DeclarationIndex.mem_classes_of_class? hc).1, marker,
          List.mem_of_find?_eq_some hmarker, beq_iff_eq.1 hname, wrapped, hwrapped,
          writes_of_typeNameOf hx _ h⟩
      · exact absurd h hfailure

mutual

/-- Classification shows only what a type is written with if the expansion of aliases does. -/
theorem yields_writtenWith (hx : ctx.Binds x)
    {expand : AliasDecl → TypeRef → Resolution PropertyKind} (hexpand : ctx.ExpandsWritten x expand)
    (scope : Option Scope) : ∀ t : TypeRef, t.isSaturated ctx.index = true →
      Yields ctx (ctx.classifyWith expand scope t) fun kind =>
        ctx.Written x t.mentions (kind.Shows x)
  | .mk name arguments nullable, ht => by
    have harguments : Yields ctx (ctx.classifyArguments expand scope arguments) fun kinds =>
        ctx.Written x (TypeRef.mk name arguments nullable).mentions (AnyShows x kinds) := by
      rw [TypeRef.isSaturated, Bool.and_eq_true] at ht
      obtain ⟨hsound, hholds⟩ := yields_writtenArguments hx hexpand scope arguments ht.2
      exact ⟨hsound, fun hc h => (hholds hc h).subset (List.subset_cons_self _ _)⟩
    -- what a type of this name with classified arguments shows
    have hofType : ∀ type : TypeName, type.arguments = [] →
        (type.IsNamed x → (TypeName.ofQualified name).IsNamed x) → Yields ctx (do
          let kinds ← ctx.classifyArguments expand scope arguments
          return PropertyKind.ofType ctx.markers type kinds)
        fun kind => ctx.Written x (TypeRef.mk name arguments nullable).mentions (kind.Shows x) := by
      intro type hnil htype
      refine harguments.bind fun kinds hkinds => yields_pure fun h => ?_
      rcases shows_ofType h with h | h
      · rw [TypeName.shows_of_arguments_nil hnil] at h
        exact .inl ⟨name, TypeRef.name_mem_mentions _, htype h⟩
      · exact hkinds h
    rw [classifyWith]
    split
    · exact hofType _ rfl id
    · exact hofType _ rfl id
    · rename_i c hr
      have hc := DeclarationIndex.declares_of_resolve hr
      refine (yields_modelNames hc).bind fun names _ => ?_
      cases names with
      | some names => exact yields_pure False.elim
      | none =>
        refine (yields_validatedValue hx hc nullable).bind fun v? hv => ?_
        cases v? with
        | some v => exact yields_pure fun h => .inr (hv v rfl h)
        | none => exact hofType _ rfl fun h => absurd h (hx.ofClass hc).1
    · -- an alias gives its name and, where it is standard, shows what the reference passes
      rename_i a hr
      have ha := DeclarationIndex.get?_of_resolve_ofAlias hr
      refine (hexpand a (.mk name arguments nullable) ha ht).bind fun kind hkind => ?_
      cases kind with
      | standard =>
        refine harguments.bind fun kinds hkinds => yields_pure fun h => ?_
        rcases h with h | h
        · exact absurd ((TypeName.shows_of_arguments_nil rfl).1 h) (hx.ofAlias ha).1
        · exact hkinds h
      | value v =>
        refine yields_pure fun h => ?_
        rcases h with h | h
        · exact absurd ((TypeName.shows_of_arguments_nil rfl).1 h) (hx.ofAlias ha).1
        · exact hkind (.inr h)
      | _ => exact yields_pure hkind

theorem yields_writtenArgument (hx : ctx.Binds x)
    {expand : AliasDecl → TypeRef → Resolution PropertyKind} (hexpand : ctx.ExpandsWritten x expand)
    (scope : Option Scope) : ∀ a : TypeArgument, TypeRef.isSaturatedArgument ctx.index a = true →
      Yields ctx (ctx.classifyArgument expand scope a) fun kind =>
        ctx.Written x (TypeRef.mentionsOfArgument a) (ArgumentShows x kind)
  | .star, _ => by
    rw [classifyArgument]
    exact yields_pure False.elim
  | .type _ t, ht => by
    rw [classifyArgument]
    exact (yields_writtenWith hx hexpand scope t ht).bind fun _ hkind => yields_pure hkind

theorem yields_writtenArguments (hx : ctx.Binds x)
    {expand : AliasDecl → TypeRef → Resolution PropertyKind} (hexpand : ctx.ExpandsWritten x expand)
    (scope : Option Scope) : ∀ as : List TypeArgument,
      TypeRef.isSaturatedList ctx.index as = true →
        Yields ctx (ctx.classifyArguments expand scope as) fun kinds =>
          ctx.Written x (TypeRef.mentionsOfList as) (AnyShows x kinds)
  | [], _ => by
    rw [classifyArguments]
    exact yields_pure False.elim
  | a :: as, h => by
    rw [TypeRef.isSaturatedList, Bool.and_eq_true] at h
    rw [classifyArguments]
    refine (yields_writtenArgument hx hexpand scope a h.1).bind fun kind hkind => ?_
    refine (yields_writtenArguments hx hexpand scope as h.2).bind fun kinds hkinds => ?_
    refine yields_pure fun hshown => ?_
    rcases hshown with hshown | hshown
    · exact hkind.subset (List.subset_append_left _ _) hshown
    · exact hkinds.subset (List.subset_append_right _ _) hshown

end

/-- A kind shows a bound name only if its type was written with it, or a class of value objects
wraps a type that was.  The induction is on the expansions of aliases that are left. -/
theorem yields_written (hx : ctx.Binds x) (scope : Option Scope) (depth : Nat) :
    ∀ t : TypeRef, t.isSaturated ctx.index = true → Yields ctx (ctx.classifyAt scope depth t)
      fun kind => ctx.Written x t.mentions (kind.Shows x) := by
  induction depth with
  | zero =>
    intro t ht
    rw [classifyAt]
    exact yields_writtenWith hx (fun _ _ _ _ => yields_throw) scope t ht
  | succ depth ih =>
    intro t ht
    rw [classifyAt]
    refine yields_writtenWith hx (fun a reference ha hreference => ?_) scope t ht
    have hexpanded := AliasDecl.isSaturated_expand hreference (hx.ofAlias ha).2.1
    obtain ⟨hsound, hholds⟩ := ih (a.expand reference) hexpanded
    exact ⟨hsound, fun hc h hshown =>
      (hholds hc h hshown).imp_left (writes_of_expand hx ha hreference)⟩

/-! ### Properties of models -/

/-- The property is classified from this type, which is written in this scope. -/
inductive IsWritten (ctx : Context) (c : ClassDecl) (p : Property) : Option Scope → TypeRef → Prop
  | declared {d : OwnedProperty} (hd : d ∈ ctx.declaredProperties c) (h : ctx.IsDeclared c d p) :
    IsWritten ctx c p (some d.owner.scope) d.property.type
  | composed {fields : List ComposedField} {f : ComposedField}
    (hfields : ctx.expandComposition c.qualifiedName c.annotations = .ok fields)
    (hf : f ∈ fields) (h : ctx.IsComposed c f p) : IsWritten ctx c p none f.field.type

theorem IsWritten.classify {c : ClassDecl} {p : Property} {scope : Option Scope} {type : TypeRef}
    (h : ctx.IsWritten c p scope type) : (ctx.classify scope type).result {} = .ok p.kind := by
  cases h with
  | declared _ h => exact h.kind
  | composed _ _ h => exact h.kind

theorem exists_isWritten {t : Target} {m : Model} (hm : ctx.modelAlone t = .ok m) {p : Property}
    (hp : p ∈ m.properties) : ∃ scope type, ctx.IsWritten t.decl p scope type := by
  have hbuild := build_of_modelOf (Analysis.sound_start ctx) (modelOf_of_modelAlone hm)
  obtain ⟨-, declared, composed, hdeclared, hcomposes, heq⟩ :=
    parts_of_build (Analysis.sound_start ctx) hbuild
  rw [heq] at hp
  rcases List.mem_append.1 hp with hp | hp
  · obtain ⟨d, hd, h⟩ := exists_of_mem_forall₂ hdeclared p hp
    exact ⟨_, _, .declared hd h⟩
  · generalize t.mark = mark at hcomposes
    cases hcomposes with
    | validatable => cases hp
    | template hfields hcomposed =>
      obtain ⟨f, hf, h⟩ := exists_of_mem_forall₂ hcomposed p hp
      exact ⟨_, _, .composed hfields hf h⟩

theorem exists_isDeclared {t : Target} {m : Model} (hm : ctx.modelAlone t = .ok m)
    {d : OwnedProperty} (hd : d ∈ ctx.declaredProperties t.decl) :
    ∃ p ∈ m.properties, ctx.IsDeclared t.decl d p := by
  have hbuild := build_of_modelOf (Analysis.sound_start ctx) (modelOf_of_modelAlone hm)
  obtain ⟨-, declared, composed, hdeclared, -, heq⟩ :=
    parts_of_build (Analysis.sound_start ctx) hbuild
  obtain ⟨p, hp, h⟩ := exists_of_mem_forall₂ hdeclared.flip d hd
  exact ⟨p, heq ▸ List.mem_append_left _ hp, h⟩

/-! ### Parameters that stay -/

/-- What classification gives whatever aliases stand for. -/
theorem yields_classifyAt_of_with {scope : Option Scope} {t : TypeRef} {post : PropertyKind → Prop}
    (h : ∀ expand, Yields ctx (ctx.classifyWith expand scope t) post) (depth : Nat) :
    Yields ctx (ctx.classifyAt scope depth t) post := by
  cases depth with
  | zero =>
    rw [classifyAt]
    exact h _
  | succ depth =>
    rw [classifyAt]
    exact h _

/-- A type parameter is a standard type of its name. -/
theorem yields_parameter {s : Scope} {parameter : String} (h : parameter ∈ s.typeParameters)
    (nullable : Bool) (depth : Nat) :
    Yields ctx (ctx.classifyAt (some s) depth (.mk parameter [] nullable)) fun kind =>
      kind = .standard ((TypeName.ofQualified parameter).withNullable nullable) [] := by
  obtain ⟨index, hindex⟩ : ∃ index, ctx.index.resolve parameter (some s) = .typeParameter index :=
    resolve_of_mem_typeParameters h
  refine yields_classifyAt_of_with (fun expand => ?_) depth
  rw [classifyWith, hindex, classifyArguments]
  have hnil : Yields ctx (pure []) fun kinds : List (Option PropertyKind) => kinds = [] :=
    yields_pure rfl
  refine hnil.bind fun kinds hkinds => yields_pure ?_
  rw [hkinds, ofType_nil]

/-- The class is one of value objects, and wraps one of its own type parameters. -/
structure WrapsParameter (ctx : Context) (c : ClassDecl) (parameter : String) : Prop where
  mem : parameter ∈ c.typeParameters
  wraps : ∃ marker nullable,
    c.superTypes.find? (fun t => t.name == ctx.markers.valueObject) = some marker ∧
      marker.argument? 0 = some (.mk parameter [] nullable)

/-- A class that wraps its own type parameter is a value of that parameter, whatever a reference
to the class passes for it. -/
theorem yields_wrappedParameter {scope : Option Scope} {name parameter : String}
    {arguments : List TypeArgument} {nullable : Bool} {c : ClassDecl}
    (hr : ctx.index.resolve name scope = .ofClass c) (hnone : ctx.modelNamesOf c = .ok none)
    (h : ctx.WrapsParameter c parameter) (depth : Nat) :
    Yields ctx (ctx.classifyAt scope depth (.mk name arguments nullable)) fun kind =>
      ∃ failure, kind = .value ⟨.ofClass c, .ofQualified parameter, failure, nullable⟩ := by
  have hc := DeclarationIndex.declares_of_resolve hr
  obtain ⟨hmem, marker, nullable', hmarker, hwrapped⟩ := h
  obtain ⟨index, hindex⟩ : ∃ index, ctx.index.resolve parameter (some c.scope) =
    .typeParameter index := resolve_of_mem_typeParameters hmem
  have hraw : (ctx.typeNameOf (some c.scope) (.mk parameter [] nullable')).withNullable false =
      .ofQualified parameter := by
    rw [typeNameOf, baseName, hindex]
    rfl
  have hvalue : Yields ctx (ctx.validatedValue c nullable) fun v? =>
      ∃ failure, v? = some ⟨.ofClass c, .ofQualified parameter, failure, nullable⟩ := by
    unfold validatedValue
    rw [hmarker]
    simp only [hwrapped, hraw]
    have hfailure := (failureType_spec hc).2.yields fun _ _ => trivial
    exact hfailure.bind fun failure _ => yields_pure ⟨failure, rfl⟩
  refine yields_classifyAt_of_with (fun expand => ?_) depth
  rw [classifyWith, hr]
  refine (yields_modelNames hc).bind fun names hnames => ?_
  obtain rfl : names = none := by
    rw [hnone] at hnames
    exact (Except.ok.inj hnames).symm
  refine hvalue.bind fun v? hv => ?_
  obtain ⟨failure, rfl⟩ := hv
  exact yields_pure ⟨failure, rfl⟩

/-- **What is left of type parameters.**  A property of an analyzed target shows a name that
aliases, supertypes and companions bind only if the type of the property was written with it, or
a class of value objects wraps a type that was: the type parameters of aliases and of validators
are replaced by what is passed for them.  Those of the class in which a property is declared, and
those of a class of value objects, are not; the property shows them whatever is passed. -/
theorem written_of_modelAlone {t : Target} {m : Model} (hm : ctx.modelAlone t = .ok m) :
    (∀ x, ctx.Binds x → ∀ p ∈ m.properties,
      (∀ scope type, ctx.IsWritten t.decl p scope type → type.isSaturated ctx.index = true) →
        p.kind.Shows x →
          ctx.Wraps x ∨ ∃ scope type, ctx.IsWritten t.decl p scope type ∧ type.Writes x) ∧
    (∀ d ∈ ctx.declaredProperties t.decl, ∀ parameter ∈ d.owner.typeParameters, ∀ nullable,
      d.property.type = .mk parameter [] nullable →
        ∃ p ∈ m.properties, ctx.IsDeclared t.decl d p ∧
          p.kind = .standard ((TypeName.ofQualified parameter).withNullable nullable) []) ∧
    ∀ p ∈ m.properties, ∀ scope name arguments nullable,
      ctx.IsWritten t.decl p scope (.mk name arguments nullable) → ∀ c parameter,
        ctx.index.resolve name scope = .ofClass c → ctx.modelNamesOf c = .ok none →
          ctx.WrapsParameter c parameter → ∃ failure,
            p.kind = .value ⟨.ofClass c, .ofQualified parameter, failure, nullable⟩ := by
  have hempty := ResolutionCache.sound_empty ctx
  refine ⟨fun x hx p hp hsaturated hshows => ?_, fun d hd parameter hparameter nullable htype => ?_,
    fun p _ scope name arguments nullable hwritten c parameter hr hnone hwraps => ?_⟩
  · obtain ⟨scope, type, hwritten⟩ := exists_isWritten hm hp
    have hyields := yields_written hx scope maxAliasDepth type (hsaturated scope type hwritten)
    refine (hyields.holds hempty hwritten.classify hshows).symm.imp_right fun hwrites => ?_
    exact ⟨scope, type, hwritten, hwrites⟩
  · obtain ⟨p, hp, hdeclared⟩ := exists_isDeclared hm hd
    refine ⟨p, hp, hdeclared, ?_⟩
    have hkind := hdeclared.kind
    rw [htype] at hkind
    exact (yields_parameter (s := d.owner.scope) hparameter nullable maxAliasDepth).holds hempty
      hkind
  · exact (yields_wrappedParameter hr hnone hwraps maxAliasDepth).holds hempty hwritten.classify

end Context

/-! ### A parcel

Its template inherits a property of the type parameter `T`, refers to an alias with the type
parameter `A`, and has a value whose class wraps the type parameter `V`, and whose companion
passes the failure on for the type parameter `F` of a validator. -/

namespace Sample

def labelled : ClassDecl :=
  ⟨"t", "Labelled", .interface, ["T"], [], [], [⟨"label", .named "T", [], none⟩], none, [], false,
    none⟩

def box : ClassDecl :=
  declared "Box" ["V"] [applied "modelsmith.core.ValueObject" [.named "V"]]
    (some ⟨"Companion", [], [applied "t.Fallible" [.named "t.Fault"]]⟩)

def fallible : ClassDecl :=
  declared "Fallible" ["F"] [applied "modelsmith.core.ValueValidator"
    [.named "kotlin.Int", .named "F", applied "t.Box" [.named "kotlin.Int"]]] none

def both : AliasDecl :=
  ⟨"t", "Both", ["A"], applied "kotlin.Pair" [.named "A", .named "A"], [], none⟩

def parcelTemplate : ClassDecl :=
  { templateOf "ParcelTemplate" "Parcel"
      [("sides", applied "t.Both" [.named "kotlin.Int"]),
        ("box", applied "t.Box" [.named "kotlin.Int"])] with
    superTypes := [applied "t.Labelled" [.named "kotlin.String"]] }

def parcels : Context :=
  ⟨⟨[Declaration.ofClass labelled, .ofClass box, .ofClass fallible, .ofAlias both,
    .ofClass parcelTemplate].map (⟨·, "t.json"⟩)⟩, {}⟩

def parcel : Target :=
  ⟨parcelTemplate, .template (.mk "modelsmith.annotation.ModelTemplate"
    [("name", .string "Parcel")])⟩

theorem declaredProperties_parcelTemplate :
    parcels.declaredProperties parcelTemplate =
      OwnedProperty.ofClass labelled ++ OwnedProperty.ofClass parcelTemplate :=
  rfl

/-- The types of the template's properties, inherited ones included. -/
def parcelTypes : List TypeRef :=
  [.named "T", applied "t.Both" [.named "kotlin.Int"], applied "t.Box" [.named "kotlin.Int"]]

theorem mem_parcelTypes {p : Property} {scope : Option Scope} {type : TypeRef}
    (h : parcels.IsWritten parcelTemplate p scope type) : type ∈ parcelTypes := by
  cases h with
  | declared hd _ =>
    rw [declaredProperties_parcelTemplate] at hd
    exact List.mem_map_of_mem (f := fun d : OwnedProperty => d.property.type) hd
  | composed hfields hf _ =>
    have hnone : (parcels.expandComposition parcelTemplate.qualifiedName
        parcelTemplate.annotations).map (·.length) = .ok 0 := by decide +kernel
    rw [hfields] at hnone
    rw [List.length_eq_zero_iff.1 (Except.ok.inj hnone)] at hf
    cases hf

end Sample

/-- `A` and `F` are replaced; `T` and `V` are not, though types are passed for them. -/
theorem Context.written_of_modelAlone_parcel :
    ∃ m, Sample.parcels.modelAlone Sample.parcel = .ok m ∧
      (∀ x ∈ ["A", "F"], ∀ p ∈ m.properties, ¬ p.kind.Shows x) ∧
      (∃ p ∈ m.properties, p.name = "label" ∧ p.kind = .standard (.ofQualified "T") []) ∧
      ∃ p ∈ m.properties, p.name = "box" ∧ ∃ failure,
        p.kind = .value ⟨.ofClass Sample.box, .ofQualified "V", failure, false⟩ := by
  cases hm : Sample.parcels.modelAlone Sample.parcel with
  | error problem =>
    have hok : (Sample.parcels.modelAlone Sample.parcel).toBool = true := by decide +kernel
    rw [hm] at hok
    cases hok
  | ok m =>
    obtain ⟨hreplaced, hinherited, hwrapped⟩ := Context.written_of_modelAlone hm
    have hdeclared := Sample.declaredProperties_parcelTemplate
    refine ⟨m, rfl, fun x hx p hp hshows => ?_, ?_, ?_⟩
    · have hbinds : ∀ x ∈ ["A", "F"], Sample.parcels.Binds x := by decide +kernel
      have hwraps : ∀ x ∈ ["A", "F"], ¬ Sample.parcels.Wraps x := by decide +kernel
      have hwrites : ∀ x ∈ ["A", "F"], ∀ type ∈ Sample.parcelTypes, ¬ type.Writes x := by
        decide +kernel
      have hsaturated : ∀ type ∈ Sample.parcelTypes,
          type.isSaturated Sample.parcels.index = true := by decide +kernel
      rcases hreplaced x (hbinds x hx) p hp
        (fun _ type h => hsaturated type (Sample.mem_parcelTypes h)) hshows with
        h | ⟨scope, type, h, hwritten⟩
      · exact hwraps x hx h
      · exact hwrites x hx type (Sample.mem_parcelTypes h) hwritten
    · obtain ⟨p, hp, h, hkind⟩ := hinherited ⟨⟨"label", .named "T", [], none⟩, Sample.labelled⟩
        (hdeclared ▸ List.mem_cons_self) "T" List.mem_cons_self false rfl
      exact ⟨p, hp, h.name, hkind⟩
    · have hd : (⟨⟨"box", Sample.applied "t.Box" [.named "kotlin.Int"], [], none⟩,
          Sample.parcelTemplate⟩ : OwnedProperty) ∈
          Sample.parcels.declaredProperties Sample.parcelTemplate :=
        hdeclared ▸ .tail _ (.tail _ (.head _))
      obtain ⟨p, hp, h⟩ := Context.exists_isDeclared hm hd
      exact ⟨p, hp, h.name, hwrapped p hp _ _ _ _ (.declared hd h) Sample.box "V" rfl rfl
        ⟨List.mem_cons_self, _, _, rfl, rfl⟩⟩

end ModelForge
