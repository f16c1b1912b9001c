/-
Templates in the types of generated classes.

A template is an interface that a model is generated for, and generated code is to use the model
and its params instead of it.  Classification replaces the templates that it meets.  Where an
alias stands for a standard type, the name of the alias is kept, and what the alias mentions is
not looked at:

* `TypeName.reference` — a generated type as a source model would refer to it;
* `DeclarationIndex.Occurs` — a reference is met in a type when all references to aliases are
  followed;
* `Context.Classifies.hides` — a field type does not mention a template, unless something else that
  is generated is called like it (`Context.IsTaken`);
* `Context.InSight` — a nested model is met on the way that classification goes, and then the
  field type has its model or its params as a part (`Context.InSight.hasPart`);
* `Context.OutOfSight` — a reference is met elsewhere, behind a model, a value or an alias of a
  standard type.

The main statement is `Context.templates_of_modelAlone`.  So a template comes through by an alias
only: `Context.template_left` is a property whose field type keeps the name of such an alias.
-/
import ModelForge.Proofs.AliasUnfolding
import ModelForge.Proofs.Decoding
import ModelForge.Proofs.IndexAgreement

namespace ModelForge

/-! ### Generated types as references -/

namespace TypeName

mutual

/-- The reference by which a source model would be written with the type. -/
def reference : TypeName → TypeRef
  | mk package simpleNames arguments nullable =>
    .mk (mk package simpleNames [] nullable).canonicalName (referenceList arguments) nullable

/-- The reference of an argument, a star for `none`. -/
def referenceArgument : Option TypeName → TypeArgument
  | none => .star
  | some t => .type .invariant (reference t)

/-- The references of the arguments. -/
def referenceList : List (Option TypeName) → List TypeArgument
  | [] => []
  | a :: as => referenceArgument a :: referenceList as

end

/-- The names that a generated type is written with. -/
def names (t : TypeName) : List String :=
  t.reference.mentions

/-- The names that the arguments are written with. -/
def namesOfList (as : List (Option TypeName)) : List String :=
  TypeRef.mentionsOfList (referenceList as)

/-- A type is a part of another one: the type itself, or a part of an argument. -/
inductive HasPart : TypeName → TypeName → Prop
  | self {t : TypeName} : HasPart t t
  | argument {t s part : TypeName} (hs : some s ∈ t.arguments) (h : HasPart s part) :
    HasPart t part

theorem name_reference (t : TypeName) : t.reference.name = t.canonicalName := by
  cases t
  rfl

theorem names_eq (t : TypeName) : t.names = t.canonicalName :: namesOfList t.arguments := by
  cases t
  rfl

theorem names_withArguments (t : TypeName) (as : List (Option TypeName)) :
    (t.withArguments as).names = t.canonicalName :: namesOfList as := by
  rw [names_eq]
  rfl

theorem names_withNullable (t : TypeName) (b : Bool) : (t.withNullable b).names = t.names := by
  rw [names_eq, names_eq]
  rfl

/-- A dotted name comes back from the class that it is read as. -/
def ReadsBack (name : String) : Prop :=
  (ofQualified name).canonicalName = name

instance (name : String) : Decidable (ReadsBack name) :=
  inferInstanceAs (Decidable (_ = _))

end TypeName

/-! ### Types that are met -/

namespace DeclarationIndex

variable {idx : DeclarationIndex} {scope : Option Scope}

/-- A reference is met in a type when every reference to an alias is followed to what it stands
for. -/
inductive Occurs (idx : DeclarationIndex) (scope : Option Scope) (s : TypeRef) : TypeRef → Prop
  | self : Occurs idx scope s s
  | argument {name : String} {arguments : List TypeArgument} {nullable : Bool}
    {variance : Variance} {t : TypeRef} (hhead : ∀ a, idx.resolve name scope ≠ .ofAlias a)
    (ht : .type variance t ∈ arguments) (h : Occurs idx scope s t) :
    Occurs idx scope s (.mk name arguments nullable)
  | expand {t : TypeRef} {a : AliasDecl} (hr : idx.resolve t.name scope = .ofAlias a)
    (h : Occurs idx scope s (a.expand t)) : Occurs idx scope s t

/-- A reference to an alias that mentions the name is met in a type. -/
def BringsIn (idx : DeclarationIndex) (scope : Option Scope) (t : TypeRef) (name : String) : Prop :=
  ∃ r a, idx.Occurs scope r t ∧ idx.resolve r.name scope = .ofAlias a ∧ name ∈ a.target.mentions

end DeclarationIndex

/-- What a reference to an alias stands for mentions only what the target and the reference
mention. -/
theorem AliasDecl.mentions_expand_target {a : AliasDecl} {reference : TypeRef} {n : String}
    (h : n ∈ (a.expand reference).mentions) :
    n ∈ a.target.mentions ∨ n ∈ reference.mentions := by
  rw [expand, TypeRef.mentions_orNullable] at h
  rcases TypeRef.mentions_substitute a.target h with ⟨htarget, -⟩ | ⟨parameter, bound, hbound, hn⟩
  · exact .inl htarget
  · obtain ⟨i, hi⟩ := argument?_of_bindings hbound
    exact .inr (TypeRef.mentions_argument? hi hn)

namespace DeclarationIndex

variable {idx : DeclarationIndex} {scope : Option Scope}

/-- A name that is met in a type is mentioned by the type, or brought in by an alias. -/
theorem Occurs.mentioned_or_brought {s t : TypeRef} (h : idx.Occurs scope s t) :
    s.name ∈ t.mentions ∨ idx.BringsIn scope t s.name := by
  induction h with
  | self => exact .inl s.name_mem_mentions
  | @argument name arguments nullable variance t hhead ht _ ih =>
    rcases ih with hmem | ⟨r, a, hr, hrest⟩
    · exact .inl (List.mem_cons_of_mem _ (TypeRef.mentionsOfArgument_subset ht hmem))
    · exact .inr ⟨r, a, .argument hhead ht hr, hrest⟩
  | @expand t a hr _ ih =>
    rcases ih with hmem | ⟨r, b, hb, hrest⟩
    · rcases AliasDecl.mentions_expand_target hmem with htarget | hmem
      · exact .inr ⟨t, a, .self, hr, htarget⟩
      · exact .inl hmem
    · exact .inr ⟨r, b, .expand hr hb, hrest⟩

/-- What is found by a name goes by the name. -/
theorem qualifiedName_of_get? {name : String} {d : Declaration} (h : idx.get? name = some d) :
    d.qualifiedName = name := by
  obtain ⟨e, he, rfl⟩ := Option.map_eq_some_iff.1 h
  have hname := List.find?_some he
  exact beq_iff_eq.1 hname

end DeclarationIndex

namespace Context

open Generation PropertyKind

variable {ctx : Context} {scope : Option Scope}

theorem arguments_baseName (name : String) : (ctx.baseName scope name).arguments = [] := by
  unfold baseName
  split <;> rfl

theorem canonicalName_of_resolve {name : String} {c : ClassDecl}
    (hr : ctx.index.resolve name scope = .ofClass c) :
    (TypeName.ofClass c).canonicalName = name := by
  have hclass := DeclarationIndex.class?_eq_some_of_resolve hr
  rw [TypeName.canonicalName_ofClass]
  exact (DeclarationIndex.mem_classes_of_class? hclass).2

/-- What a name refers to has the name. -/
theorem canonicalName_baseName {name : String} (h : TypeName.ReadsBack name) :
    (ctx.baseName scope name).canonicalName = name := by
  unfold baseName
  split
  · rename_i c hr
    exact canonicalName_of_resolve hr
  · rename_i a hr
    have hname : a.qualifiedName = name :=
      DeclarationIndex.qualifiedName_of_get? (DeclarationIndex.get?_of_resolve_ofAlias hr)
    show (TypeName.ofQualified a.qualifiedName).canonicalName = name
    rw [hname]
    exact h
  all_goals exact h

theorem names_baseName {name : String} (h : TypeName.ReadsBack name) :
    (ctx.baseName scope name).names = [name] := by
  rw [TypeName.names_eq, arguments_baseName, canonicalName_baseName h]
  rfl

theorem baseName_of_class {name : String} {c : ClassDecl}
    (hr : ctx.index.resolve name scope = .ofClass c) : ctx.baseName scope name = .ofClass c := by
  rw [baseName, hr]

theorem baseName_of_alias {name : String} {a : AliasDecl}
    (hr : ctx.index.resolve name scope = .ofAlias a) : ctx.baseName scope name = .ofAlias a := by
  rw [baseName, hr]

/-! ### Templates give way -/

/-- A model is generated for the class as for a template. -/
def IsTemplate (ctx : Context) (c : ClassDecl) : Prop :=
  (c.annotated? ctx.markers.modelTemplate).isSome = true

/-- Generated code calls something else by the name: a container, or a model or params that are
generated for a template. -/
inductive IsTaken (ctx : Context) (name : String) : Prop
  | container {container : Container} (h : container.type.canonicalName = name)
  | generated {c : ClassDecl} {names : ModelNames} {mode : Mode} (hc : ctx.index.Declares c)
    (htemplate : ctx.IsTemplate c) (hnames : ctx.modelNamesOf c = .ok (some names))
    (h : (nestedClass ⟨names, false⟩ mode).canonicalName = name)

/-- No name refers to a template, unless it is taken. -/
def Hides (ctx : Context) (scope : Option Scope) (names : List String) : Prop :=
  ∀ name ∈ names, ∀ c, ctx.index.resolve name scope = .ofClass c → ctx.IsTemplate c →
    ctx.IsTaken name

theorem hides_nil : ctx.Hides scope [] :=
  nofun

theorem hides_singleton {name : String} :
    ctx.Hides scope [name] ↔ ∀ c, ctx.index.resolve name scope = .ofClass c → ctx.IsTemplate c →
      ctx.IsTaken name := by
  simp [Hides]

theorem hides_cons {name : String} {names : List String} :
    ctx.Hides scope (name :: names) ↔ ctx.Hides scope [name] ∧ ctx.Hides scope names := by
  simp [Hides]

theorem hides_append {names names' : List String} :
    ctx.Hides scope (names ++ names') ↔ ctx.Hides scope names ∧ ctx.Hides scope names' := by
  simp [Hides, or_imp, forall_and]

/-- The names of a model are those of a template, or those of the class itself. -/
theorem modelNamesOf_eq_ok {c : ClassDecl} {names : Option ModelNames}
    (h : ctx.modelNamesOf c = .ok names) :
    (ctx.IsTemplate c ∧ ∃ base, names = some (.template c.package base)) ∨
      ¬ ctx.IsTemplate c ∧ ∀ n ∈ names, n = .validatable (.ofClass c) := by
  unfold modelNamesOf at h
  unfold IsTemplate
  cases ha : c.annotated? ctx.markers.modelTemplate with
  | some a =>
    simp only [ha] at h
    cases hbase : a.identifier "name" with
    | error e =>
      rw [hbase] at h
      cases h
    | ok base =>
      rw [hbase] at h
      exact .inl ⟨rfl, base, (Except.ok.inj h).symm⟩
  | none =>
    simp only [ha] at h
    refine .inr ⟨Bool.false_ne_true, fun n hn => ?_⟩
    split at h
    · obtain rfl := Except.ok.inj h
      exact (Option.some.inj hn).symm
    · obtain rfl := Except.ok.inj h
      cases hn

theorem not_isTemplate_of_none {c : ClassDecl} (h : ctx.modelNamesOf c = .ok none) :
    ¬ ctx.IsTemplate c := by
  rcases modelNamesOf_eq_ok h with ⟨-, base, hbase⟩ | ⟨hc, -⟩
  · cases hbase
  · exact hc

theorem isModelOrValue_of_isTemplate {c : ClassDecl} (h : ctx.IsTemplate c) :
    ctx.IsModelOrValue c :=
  .inl fun hnone => not_isTemplate_of_none hnone h

/-- A name that refers to a class which is no template hides all templates. -/
theorem hides_of_class {name : String} {c : ClassDecl}
    (hr : ctx.index.resolve name scope = .ofClass c) (hc : ¬ ctx.IsTemplate c) :
    ctx.Hides scope [name] := by
  refine hides_singleton.2 fun c' hr' htemplate => ?_
  cases hr.symm.trans hr'
  exact absurd htemplate hc

theorem hides_of_isPlain {name : String} (h : ctx.IsPlain scope name) :
    ctx.Hides scope [name] :=
  hides_singleton.2 fun c hr htemplate =>
    absurd (isModelOrValue_of_isTemplate htemplate) (h.notSpecial c hr)

theorem hides_of_alias {name : String} {a : AliasDecl}
    (hr : ctx.index.resolve name scope = .ofAlias a) : ctx.Hides scope [name] :=
  hides_singleton.2 fun c hr' => by simp [hr] at hr'

theorem names_nestedClass {c : ClassDecl} {names : ModelNames}
    (h : ctx.modelNamesOf c = .ok (some names)) (nullable : Bool) (mode : Mode) :
    (nestedClass ⟨names, nullable⟩ mode).names =
      [(nestedClass ⟨names, nullable⟩ mode).canonicalName] := by
  have hnil : (nestedClass ⟨names, nullable⟩ mode).arguments = [] := by
    rcases modelNamesOf_eq_ok h with ⟨-, base, hnames⟩ | ⟨-, hnames⟩
    · cases hnames
      cases mode <;> rfl
    · rw [hnames names rfl]
      cases mode <;> rfl
  rw [TypeName.names_eq, hnil]
  rfl

/-- The class that stands for a nested model is no template, or its name is taken. -/
theorem hides_nestedClass {name : String} {c : ClassDecl} {names : ModelNames}
    (hr : ctx.index.resolve name scope = .ofClass c)
    (hnames : ctx.modelNamesOf c = .ok (some names)) (nullable : Bool) (mode : Mode) :
    ctx.Hides scope (nestedClass ⟨names, nullable⟩ mode).names := by
  rw [names_nestedClass hnames]
  rcases modelNamesOf_eq_ok hnames with ⟨htemplate, -⟩ | ⟨hc, hvalidatable⟩
  · exact hides_singleton.2 fun _ _ _ =>
      .generated (DeclarationIndex.declares_of_resolve hr) htemplate hnames rfl
  · -- the class stands for itself
    have hname : (nestedClass ⟨names, nullable⟩ mode).canonicalName = name := by
      rw [← canonicalName_of_resolve hr, hvalidatable names rfl]
      cases mode <;> rfl
    rw [hname]
    exact hides_of_class hr hc

/-- What the type of a class mentions are its name and the names in its arguments, or those of a
container and its content. -/
theorem hides_ofType {type : TypeName} {kinds : List (Option PropertyKind)} {mode : Mode}
    (hnil : type.arguments = []) (hname : ctx.Hides scope [type.canonicalName])
    (hkinds : ctx.Hides scope (TypeName.namesOfList (fieldArguments mode kinds))) :
    ctx.Hides scope (fieldType mode (.ofType ctx.markers type kinds)).names := by
  have hstandard : ctx.Hides scope (fieldType mode (.standard type kinds)).names := by
    rw [fieldType_standard mode hnil, TypeName.names_withArguments, hides_cons]
    exact ⟨hname, hkinds⟩
  unfold ofType
  split
  · rename_i container inner _
    cases hkind : inContainer? container inner type.nullable with
    | none => exact hstandard
    | some kind =>
      show ctx.Hides scope (fieldType mode kind).names
      rw [fieldType_inContainer? mode hkind, TypeName.names_withArguments, hides_cons]
      exact ⟨hides_singleton.2 fun _ _ _ => .container rfl, hkinds⟩
  · exact hstandard

/-- The names of a field type that is known under another name. -/
theorem hides_wrappedIn {wrapper : TypeName} {kind : PropertyKind} {mode : Mode}
    (hwrapper : ctx.Hides scope wrapper.names) (h : ctx.Hides scope (fieldType mode kind).names) :
    ctx.Hides scope (fieldType mode (kind.wrappedIn wrapper)).names := by
  cases kind with
  | value v =>
    show ctx.Hides scope (wrapper.withNullable v.nullable).names
    rwa [TypeName.names_withNullable]
  | _ => exact h

/-- What a reference to an alias stands for mentions only what the index mentions, if the reference
does. -/
theorem mentions_expand_subset {name : String} {a : AliasDecl} {t : TypeRef}
    (hr : ctx.index.resolve name scope = .ofAlias a) (ht : t.mentions ⊆ ctx.index.mentions) :
    (a.expand t).mentions ⊆ ctx.index.mentions := by
  intro n hn
  rcases AliasDecl.mentions_expand hn with hn | hn
  · exact DeclarationIndex.mentions_get? (DeclarationIndex.get?_of_resolve_ofAlias hr) hn
  · exact ht hn

mutual

/-- Where names come back from what they are read as, a field type does not refer to a template by
name. -/
theorem Classifies.hides (hread : ∀ n ∈ ctx.index.mentions, TypeName.ReadsBack n) (mode : Mode)
    {t : TypeRef} {kind : PropertyKind} : ctx.Classifies scope t kind →
      t.mentions ⊆ ctx.index.mentions → ctx.Hides scope (fieldType mode kind).names
  | .model hr hnames, _ => by
    rw [fieldType, nestedType, TypeName.names_withNullable]
    exact hides_nestedClass hr hnames _ mode
  | @Classifies.value _ _ name _ _ _ _ hr hnone hvalue, ht => by
    have htype := (wrapper_of_validatedValue hr hvalue).1
    have hname : (ctx.baseName scope name).names = [name] :=
      names_baseName (hread name (ht List.mem_cons_self))
    rw [fieldType, htype, TypeName.names_withNullable, ← baseName_of_class hr, hname]
    exact hides_of_class hr (not_isTemplate_of_none hnone)
  | @Classifies.plain _ _ name _ nullable _ hplain hkinds, ht => by
    refine hides_ofType (arguments_baseName name) ?_ (hkinds.hides hread mode fun n hn =>
      ht (List.mem_cons_of_mem _ hn))
    show ctx.Hides scope [(ctx.baseName scope name).canonicalName]
    rw [canonicalName_baseName (hread name (ht List.mem_cons_self))]
    exact hides_of_isPlain hplain
  | @Classifies.aliased _ _ name _ _ a _ hr hkind _, ht => by
    refine hides_wrappedIn ?_ (hkind.hides hread mode (mentions_expand_subset hr ht))
    rw [← baseName_of_alias hr, names_baseName (hread name (ht List.mem_cons_self))]
    exact hides_of_alias hr
  | @Classifies.aliasedStandard _ _ name _ _ a _ kinds hr _ _ hkinds, ht => by
    rw [fieldType_standard mode rfl, TypeName.names_withArguments, hides_cons]
    refine ⟨?_, hkinds.hides hread mode fun n hn => ht (List.mem_cons_of_mem _ hn)⟩
    show ctx.Hides scope [(TypeName.ofAlias a).canonicalName]
    rw [← baseName_of_alias hr, canonicalName_baseName (hread name (ht List.mem_cons_self))]
    exact hides_of_alias hr

theorem ClassifiesAll.hides (hread : ∀ n ∈ ctx.index.mentions, TypeName.ReadsBack n) (mode : Mode)
    {as : List TypeArgument} {kinds : List (Option PropertyKind)} :
    ctx.ClassifiesAll scope as kinds → TypeRef.mentionsOfList as ⊆ ctx.index.mentions →
      ctx.Hides scope (TypeName.namesOfList (fieldArguments mode kinds))
  | .nil, _ => hides_nil
  | .star hrest, has => hrest.hides hread mode has
  | .type hkind hrest, has => by
    obtain ⟨ht, hothers⟩ := List.append_subset.1 has
    exact hides_append.2 ⟨hkind.hides hread mode ht, hrest.hides hread mode hothers⟩

end

/-- A template that occurs in a field type has been brought in by an alias, or its name is taken. -/
theorem Classifies.taken_or_brought (hread : ∀ n ∈ ctx.index.mentions, TypeName.ReadsBack n)
    {t : TypeRef} {kind : PropertyKind} (h : ctx.Classifies scope t kind)
    (ht : t.mentions ⊆ ctx.index.mentions) {mode : Mode} {s : TypeRef} {c : ClassDecl}
    (hs : ctx.index.Occurs scope s (fieldType mode kind).reference)
    (hr : ctx.index.resolve s.name scope = .ofClass c) (hc : ctx.IsTemplate c) :
    ctx.IsTaken s.name ∨ ctx.index.BringsIn scope (fieldType mode kind).reference s.name := by
  refine hs.mentioned_or_brought.imp_left fun hmem => ?_
  exact h.hides hread mode ht _ hmem c hr hc

/-! ### Templates in sight -/

/-- A nested model is met in a type where classification looks: in the arguments of a plain name
or of an alias that stands for a standard type, and in what another alias stands for. -/
inductive InSight (ctx : Context) (scope : Option Scope) (m : NestedModel) : TypeRef → Prop
  | here {name : String} {arguments : List TypeArgument} {nullable : Bool} {c : ClassDecl}
    (hr : ctx.index.resolve name scope = .ofClass c)
    (hnames : ctx.modelNamesOf c = .ok (some m.names)) (hnullable : m.nullable = nullable) :
    InSight ctx scope m (.mk name arguments nullable)
  | argument {name : String} {arguments : List TypeArgument} {nullable : Bool}
    {variance : Variance} {t : TypeRef} (hplain : ctx.IsPlain scope name)
    (ht : .type variance t ∈ arguments) (h : InSight ctx scope m t) :
    InSight ctx scope m (.mk name arguments nullable)
  | passed {name : String} {arguments : List TypeArgument} {nullable : Bool} {a : AliasDecl}
    {target : PropertyKind} {variance : Variance} {t : TypeRef}
    (hr : ctx.index.resolve name scope = .ofAlias a)
    (htarget : ctx.Classifies scope (a.expand (.mk name arguments nullable)) target)
    (hstandard : target.isStandard = true) (ht : .type variance t ∈ arguments)
    (h : InSight ctx scope m t) : InSight ctx scope m (.mk name arguments nullable)
  | expand {name : String} {arguments : List TypeArgument} {nullable : Bool} {a : AliasDecl}
    {target : PropertyKind} (hr : ctx.index.resolve name scope = .ofAlias a)
    (htarget : ctx.Classifies scope (a.expand (.mk name arguments nullable)) target)
    (hspecial : target.isStandard = false)
    (h : InSight ctx scope m (a.expand (.mk name arguments nullable))) :
    InSight ctx scope m (.mk name arguments nullable)

theorem mem_fieldArguments {mode : Mode} {kind : PropertyKind} {kinds : List (Option PropertyKind)}
    (h : some kind ∈ kinds) : some (fieldType mode kind) ∈ fieldArguments mode kinds := by
  induction kinds with
  | nil => cases h
  | cons k kinds ih =>
    rw [fieldArguments]
    rcases List.mem_cons.1 h with rfl | h
    · exact List.mem_cons_self
    · exact List.mem_cons_of_mem _ (ih h)

/-- The type of a class has the types of its arguments as parts, also if it is a container. -/
theorem hasPart_ofType {type : TypeName} {kinds : List (Option PropertyKind)} {mode : Mode}
    {kind : PropertyKind} {part : TypeName} (hnil : type.arguments = []) (hkind : some kind ∈ kinds)
    (h : (fieldType mode kind).HasPart part) :
    (fieldType mode (.ofType ctx.markers type kinds)).HasPart part := by
  have hstandard : (fieldType mode (.standard type kinds)).HasPart part := by
    rw [fieldType_standard mode hnil]
    exact .argument (mem_fieldArguments hkind) h
  unfold ofType
  split
  · rename_i container inner _
    cases hcontainer : inContainer? container inner type.nullable with
    | none => exact hstandard
    | some contained =>
      obtain rfl : kind = inner := by simpa using hkind
      show (fieldType mode contained).HasPart part
      rw [fieldType_inContainer? mode hcontainer]
      exact .argument List.mem_cons_self h
  · exact hstandard

theorem wrappedIn_ofType (m : Markers) (type wrapper : TypeName)
    (kinds : List (Option PropertyKind)) :
    (ofType m type kinds).wrappedIn wrapper = ofType m type kinds := by
  unfold ofType
  split
  · rename_i container inner _
    cases container <;> cases inner <;> rfl
  · rfl

theorem ClassifiesAll.exists_kind {as : List TypeArgument} {kinds : List (Option PropertyKind)}
    {variance : Variance} {t : TypeRef} (h : ctx.ClassifiesAll scope as kinds)
    (ht : .type variance t ∈ as) : ∃ kind, some kind ∈ kinds ∧ ctx.Classifies scope t kind := by
  induction as generalizing kinds with
  | nil => cases ht
  | cons a as ih =>
    cases h with
    | star hrest =>
      obtain ⟨kind, hmem, hkind⟩ := ih hrest (by simpa using ht)
      exact ⟨kind, List.mem_cons_of_mem _ hmem, hkind⟩
    | type hfirst hrest =>
      rcases List.mem_cons.1 ht with heq | ht
      · cases heq
        exact ⟨_, List.mem_cons_self, hfirst⟩
      · obtain ⟨kind, hmem, hkind⟩ := ih hrest ht
        exact ⟨kind, List.mem_cons_of_mem _ hmem, hkind⟩

/-- A nested model that is in sight is a part of the field type.  The type is no value, so that no
name is put in its place. -/
theorem InSight.hasPart {m : NestedModel} {t : TypeRef} (h : ctx.InSight scope m t) (mode : Mode) :
    ∀ {kind : PropertyKind}, ctx.Classifies scope t kind →
      (fieldType mode kind).HasPart (nestedType m mode) ∧
        ∀ wrapper, kind.wrappedIn wrapper = kind := by
  induction h with
  | here hr hnames hnullable =>
    intro kind hkind
    subst hnullable
    rw [hkind.eq_model hr hnames]
    exact ⟨.self, fun _ => rfl⟩
  | argument hplain ht _ ih =>
    intro kind hkind
    obtain ⟨kinds, hkinds, rfl⟩ := hkind.of_plain hplain
    obtain ⟨inner, hmem, hinner⟩ := hkinds.exists_kind ht
    exact ⟨hasPart_ofType (arguments_baseName _) hmem (ih hinner).1,
      fun wrapper => wrappedIn_ofType _ _ wrapper _⟩
  | passed hr htarget hstandard ht _ ih =>
    intro kind hkind
    obtain ⟨target', htarget', ⟨hspecial, -⟩ | ⟨-, kinds, hkinds, rfl⟩⟩ := hkind.of_alias hr
    · rw [← htarget.isStandard_eq (.refl _) htarget', hstandard] at hspecial
      cases hspecial
    · obtain ⟨inner, hmem, hinner⟩ := hkinds.exists_kind ht
      rw [fieldType_standard mode rfl]
      exact ⟨.argument (mem_fieldArguments hmem) (ih hinner).1, fun _ => rfl⟩
  | expand hr htarget hspecial _ ih =>
    intro kind hkind
    obtain ⟨target', htarget', ⟨-, rfl⟩ | ⟨hstandard, -⟩⟩ := hkind.of_alias hr
    · obtain ⟨hpart, hname⟩ := ih htarget'
      rw [hname]
      exact ⟨hpart, hname⟩
    · rw [← htarget.isStandard_eq (.refl _) htarget', hspecial] at hstandard
      cases hstandard

/-- A reference is met in a type behind another one that classification does not look behind: it is
passed to a model or to a value, or an alias that stands for a standard type brings it in. -/
def OutOfSight (ctx : Context) (scope : Option Scope) (s t : TypeRef) : Prop :=
  ∃ r, ctx.index.Occurs scope r t ∧
    ((∃ c variance passed, ctx.index.resolve r.name scope = .ofClass c ∧ ctx.IsModelOrValue c ∧
        .type variance passed ∈ r.arguments ∧ ctx.index.Occurs scope s passed) ∨
      ∃ a target, ctx.index.resolve r.name scope = .ofAlias a ∧
        ctx.Classifies scope (a.expand r) target ∧ target.isStandard = true ∧
          ctx.index.Occurs scope s (a.expand r))

/-- A name that is neither plain nor an alias is a model or a value. -/
theorem exists_isModelOrValue {name : String}
    (hhead : ∀ a, ctx.index.resolve name scope ≠ .ofAlias a) (hplain : ¬ ctx.IsPlain scope name) :
    ∃ c, ctx.index.resolve name scope = .ofClass c ∧ ctx.IsModelOrValue c := by
  by_contra hnone
  exact hplain ⟨hhead, fun c hr hspecial => hnone ⟨c, hr, hspecial⟩⟩

/-- Every template that occurs in a type is in sight or out of sight. -/
theorem inSight_or_outOfSight {s t : TypeRef} {c : ClassDecl} (h : ctx.index.Occurs scope s t)
    (hr : ctx.index.resolve s.name scope = .ofClass c) (hc : ctx.IsTemplate c) :
    ∀ {kind : PropertyKind}, ctx.Classifies scope t kind →
      (∃ names, ctx.modelNamesOf c = .ok (some names) ∧
        ctx.InSight scope ⟨names, s.nullable⟩ t) ∨ ctx.OutOfSight scope s t := by
  induction h with
  | self =>
    intro kind hkind
    have hspecial := isModelOrValue_of_isTemplate hc
    cases hkind with
    | model hr' hnames =>
      cases hr.symm.trans hr'
      exact .inl ⟨_, hnames, .here hr' hnames rfl⟩
    | value hr' hnone =>
      cases hr.symm.trans hr'
      exact absurd hc (not_isTemplate_of_none hnone)
    | plain hplain => exact absurd hspecial (hplain.notSpecial c hr)
    | aliased hr' | aliasedStandard hr' => cases hr.symm.trans hr'
  | @argument name arguments nullable variance t hhead ht hs ih =>
    intro kind hkind
    by_cases hplain : ctx.IsPlain scope name
    · obtain ⟨kinds, hkinds, -⟩ := hkind.of_plain hplain
      obtain ⟨inner, -, hinner⟩ := hkinds.exists_kind ht
      rcases ih hinner with ⟨names, hnames, hsight⟩ | ⟨r, hr', hbehind⟩
      · exact .inl ⟨names, hnames, .argument hplain ht hsight⟩
      · exact .inr ⟨r, .argument hhead ht hr', hbehind⟩
    · obtain ⟨c', hr', hspecial⟩ := exists_isModelOrValue hhead hplain
      exact .inr ⟨_, .self, .inl ⟨c', variance, t, hr', hspecial, ht, hs⟩⟩
  | @expand t a hr' hs ih =>
    intro kind hkind
    obtain ⟨name, arguments, nullable⟩ := t
    obtain ⟨target, htarget, ⟨hspecial, -⟩ | ⟨hstandard, -⟩⟩ := hkind.of_alias hr'
    · rcases ih htarget with ⟨names, hnames, hsight⟩ | ⟨r, hr'', hbehind⟩
      · exact .inl ⟨names, hnames, .expand hr' htarget hspecial hsight⟩
      · exact .inr ⟨r, .expand hr' hr'', hbehind⟩
    · exact .inr ⟨_, .self, .inr ⟨a, target, hr', htarget, hstandard, hs⟩⟩

/-! ### Properties of models -/

/-- What an index mentions is all that the types of a target's properties mention. -/
theorem IsWritten.mentions {t : Target} (ht : t ∈ ctx.targets) {p : Property} {type : TypeRef}
    (h : ctx.IsWritten t.decl p scope type) : type.mentions ⊆ ctx.index.mentions := by
  have hagrees : Agrees (· ∈ ctx.index.mentions) ctx ctx :=
    ⟨rfl, fun _ => rfl, fun _ hd _ hn => DeclarationIndex.mentions_get? hd hn⟩
  have hdecl : ∀ n ∈ t.decl.mentions, n ∈ ctx.index.mentions := by
    intro n hn
    obtain ⟨c, hc, hmark⟩ := List.mem_filterMap.1 ht
    obtain ⟨mark, -, rfl⟩ := Option.map_eq_some_iff.1 hmark
    obtain ⟨d, hd, hclass⟩ := List.mem_filterMap.1 hc
    cases d with
    | ofClass c' =>
      cases hclass
      exact List.mem_flatMap.2 ⟨_, hd, hn⟩
    | ofAlias a => cases hclass
  cases h with
  | declared hd _ => exact hagrees.mentions_declared hdecl hd
  | composed hfields hf _ =>
    refine hagrees.mentions_composed (fun a ha n hn => ?_) hfields _ hf
    exact hdecl n (ClassDecl.mentions_annotation ha hn)

/-- **Templates in the types of generated classes.**  A property of an analyzed target is written
with a type, and generated code stores it at a field type, in the model and in the params.  A
template that occurs in the field type when all aliases are followed is brought in by an alias that
mentions it, or something else that is generated is called like it.  A template that occurs in the
written type is in sight or out of sight, and for every nested model that is in sight the field
type has the model or its params as a part.  Out of sight is only what is passed to a model or to a
value, and what an alias of a standard type stands for. -/
theorem templates_of_modelAlone (hread : ∀ n ∈ ctx.index.mentions, TypeName.ReadsBack n)
    {t : Target} (ht : t ∈ ctx.targets) {m : Model} (hm : ctx.modelAlone t = .ok m) {p : Property}
    (hp : p ∈ m.properties) : ∃ scope type, ctx.IsWritten t.decl p scope type ∧
      (∀ mode s c, ctx.index.Occurs scope s (fieldType mode p.kind).reference →
        ctx.index.resolve s.name scope = .ofClass c → ctx.IsTemplate c →
          ctx.IsTaken s.name ∨ ctx.index.BringsIn scope (fieldType mode p.kind).reference s.name) ∧
      (∀ s c, ctx.index.Occurs scope s type → ctx.index.resolve s.name scope = .ofClass c →
        ctx.IsTemplate c → (∃ names, ctx.modelNamesOf c = .ok (some names) ∧
          ctx.InSight scope ⟨names, s.nullable⟩ type) ∨ ctx.OutOfSight scope s type) ∧
      ∀ mode nested, ctx.InSight scope nested type →
        (fieldType mode p.kind).HasPart (nestedType nested mode) := by
  obtain ⟨scope, type, hwritten⟩ := exists_isWritten hm hp
  have hkind := classifies_of_classify (ResolutionCache.sound_empty ctx) hwritten.classify
  refine ⟨scope, type, hwritten, fun mode s c hs hr hc => ?_, fun s c hs hr hc => ?_,
    fun mode nested hsight => ?_⟩
  · exact hkind.taken_or_brought hread (hwritten.mentions ht) hs hr hc
  · exact inSight_or_outOfSight hs hr hc hkind
  · exact (hsight.hasPart mode hkind).1

end Context

/-! ### An atlas

`Towns` stands for a map, whose values are of a template.  The template of the atlas has a property
of this alias, and one that is an option of the template. -/

namespace Sample

def townTemplate : ClassDecl :=
  templateOf "TownTemplate" "Town" [("size", .named "kotlin.Int")]

def towns : AliasDecl :=
  ⟨"t", "Towns", [], applied "kotlin.collections.Map"
    [.named "kotlin.String", .named "t.TownTemplate"], [], none⟩

def atlasTemplate : ClassDecl :=
  templateOf "AtlasTemplate" "Atlas"
    [("towns", .named "t.Towns"),
      ("capital", applied "arrow.core.Option" [.named "t.TownTemplate"])]

def atlases : Context :=
  ⟨⟨[Declaration.ofClass townTemplate, .ofAlias towns, .ofClass atlasTemplate].map
    (⟨·, "t.json"⟩)⟩, {}⟩

def atlas : Target :=
  ⟨atlasTemplate, .template (.mk "modelsmith.annotation.ModelTemplate"
    [("name", .string "Atlas")])⟩

theorem mem_targets_atlases : atlas ∈ atlases.targets :=
  List.mem_cons_of_mem _ List.mem_cons_self

theorem readsBack_atlases : ∀ n ∈ atlases.index.mentions, TypeName.ReadsBack n := by
  decide +kernel

/-- The names in the field types, in the model and in the params. -/
theorem analyzed_atlas :
    ∃ m, atlases.modelAlone atlas = .ok m ∧ ∀ mode,
      m.properties.map (fun p => (Generation.fieldType mode p.kind).names) =
        [["t.Towns"], ["arrow.core.Option", match mode with
          | .model => "t.Town"
          | .params => "t.TownParams"]] := by
  have hnames : (atlases.modelAlone atlas).map (fun m =>
      [Generation.Mode.model, .params].map fun mode =>
        m.properties.map fun p => (Generation.fieldType mode p.kind).names) =
      .ok [[["t.Towns"], ["arrow.core.Option", "t.Town"]],
        [["t.Towns"], ["arrow.core.Option", "t.TownParams"]]] := by
    decide +kernel
  obtain ⟨m, hm, hnames⟩ := Json.map_eq_ok_iff.1 hnames
  simp only [List.map_cons, List.map_nil, List.cons.injEq, and_true] at hnames
  refine ⟨m, hm, fun mode => ?_⟩
  cases mode with
  | model => exact hnames.1
  | params => exact hnames.2

end Sample

theorem Context.templates_of_modelAlone_atlas :
    (∀ n ∈ Sample.atlases.index.mentions, TypeName.ReadsBack n) ∧
    Sample.atlas ∈ Sample.atlases.targets ∧
    ∃ m, Sample.atlases.modelAlone Sample.atlas = .ok m ∧ m.properties ≠ [] ∧
      ∀ p ∈ m.properties, ∃ scope type, Sample.atlases.IsWritten Sample.atlasTemplate p scope type ∧
        ∀ mode nested, Sample.atlases.InSight scope nested type →
          (Generation.fieldType mode p.kind).HasPart (Generation.nestedType nested mode) := by
  obtain ⟨m, hm, hnames⟩ := Sample.analyzed_atlas
  have hproperties : m.properties ≠ [] := by
    intro hnil
    have hmodel := hnames .model
    rw [hnil] at hmodel
    simp at hmodel
  refine ⟨Sample.readsBack_atlases, Sample.mem_targets_atlases, m, hm, hproperties,
    fun p hp => ?_⟩
  obtain ⟨scope, type, hwritten, -, -, hparts⟩ := Context.templates_of_modelAlone
    Sample.readsBack_atlases Sample.mem_targets_atlases hm hp
  exact ⟨scope, type, hwritten, hparts⟩

/-- In the model and in the params, a field type consists of the name of an alias, and what the
alias stands for has a template as an argument. -/
theorem Context.template_left :
    ∃ m, Sample.atlases.modelAlone Sample.atlas = .ok m ∧ ∀ mode, ∃ p ∈ m.properties,
      (Generation.fieldType mode p.kind).names = ["t.Towns"] ∧
      ∃ s, Sample.atlases.index.Occurs none s (Generation.fieldType mode p.kind).reference ∧
        Sample.atlases.index.resolve s.name none = .ofClass Sample.townTemplate ∧
        Sample.atlases.IsTemplate Sample.townTemplate := by
  obtain ⟨m, hm, hnames⟩ := Sample.analyzed_atlas
  refine ⟨m, hm, fun mode => ?_⟩
  have hmem : ["t.Towns"] ∈
      m.properties.map fun p => (Generation.fieldType mode p.kind).names := by
    rw [hnames mode]
    exact List.mem_cons_self
  obtain ⟨p, hp, htowns⟩ := List.mem_map.1 hmem
  have hname : (Generation.fieldType mode p.kind).reference.name = "t.Towns" := by
    have hfirst := htowns
    rw [TypeName.names_eq] at hfirst
    rw [TypeName.name_reference]
    exact (List.cons.inj hfirst).1
  have halias : Sample.atlases.index.resolve (Generation.fieldType mode p.kind).reference.name
      none = .ofAlias Sample.towns := by
    rw [hname]
    rfl
  have hmap : ∀ a, Sample.atlases.index.resolve "kotlin.collections.Map" none ≠ .ofAlias a := by
    have hexternal : Sample.atlases.index.resolve "kotlin.collections.Map" none = .external := rfl
    simp [hexternal]
  refine ⟨p, hp, htowns, .named "t.TownTemplate", .expand halias ?_, rfl, rfl⟩
  -- the second argument of the map
  have hargument : TypeArgument.type .invariant (.named "t.TownTemplate") ∈
      (Sample.towns.expand (Generation.fieldType mode p.kind).reference).arguments :=
    List.mem_cons_of_mem _ List.mem_cons_self
  exact .argument hmap hargument .self

end ModelForge
