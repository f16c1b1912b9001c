/-
A supertype that is written by an alias does not count.

Three walks look at supertypes: the one over the interfaces of a class, the search for the
validator of a companion, and the look for the interface of value objects.  A marker is known by
its name, and all other references are followed only if they name a class.  So a reference to an
alias could as well be left away, whatever the alias stands for.

* `Context.notices` — the supertypes that are looked at;
* `Context.pruned` — the context without the others, in all classes and companions;
* `Context.declaredProperties_pruned`, `Context.failureTypeOf_pruned`,
  `Context.validatedValue_pruned` — the three walks come to the same without them;
* `Context.analyze_pruned` — and so does the analysis of a target.

The main statement is `Context.reports_pruned`.
-/
import ModelForge.Proofs.AnalyzedModels
import ModelForge.Proofs.ComposedFields
import ModelForge.Proofs.InterfaceWalk
import ModelForge.Proofs.ValidatorChain

namespace ModelForge

/-! ### Lists without some of their items -/

section

variable {α β : Type} {p q : α → Bool} {f : α → Option β}

/-- What is searched for is not among the items that are left away. -/
theorem find?_filter_of_imp (h : ∀ a, q a = true → p a = true) (as : List α) :
    (as.filter p).find? q = as.find? q := by
  rw [List.find?_filter]
  refine congrArg (as.find? ·) (funext fun a => ?_)
  cases hq : q a with
  | false => simp
  | true => simp [h a hq]

/-- Items without a result may be left away. -/
theorem findSome?_filter_of_none (h : ∀ a, p a = false → f a = none) (as : List α) :
    (as.filter p).findSome? f = as.findSome? f := by
  induction as with
  | nil => rfl
  | cons a as ih =>
    cases hp : p a with
    | true => simp [hp, List.findSome?_cons, ih]
    | false => simp [hp, ih, h a hp]

theorem filterMap_filter_of_none (h : ∀ a, p a = false → f a = none) (as : List α) :
    (as.filter p).filterMap f = as.filterMap f := by
  rw [List.filterMap_filter]
  refine congrArg (as.filterMap ·) (funext fun a => ?_)
  cases hp : p a with
  | true => rfl
  | false => simp [h a hp]

end

namespace Context

variable (ctx : Context)

/-! ### Pruned declarations -/

/-- A supertype that is looked at: it has the name of a marker, or it names no alias. -/
def notices (ctx : Context) (s : Scope) (t : TypeRef) : Bool :=
  t.name == ctx.markers.valueObject || t.name == ctx.markers.valueValidator ||
    match ctx.index.resolve t.name (some s) with
    | .ofAlias _ => false
    | _ => true

/-- The scope with the supertypes that are looked at. -/
def pruneScope (ctx : Context) (s : Scope) : Scope :=
  { s with superTypes := s.superTypes.filter (ctx.notices s) }

/-- The companion of a class with the supertypes that are looked at. -/
def pruneCompanion (ctx : Context) (c : ClassDecl) (k : CompanionDecl) : CompanionDecl :=
  let scope : Scope := ⟨c.qualifiedName ++ "." ++ k.name, k.typeParameters, k.superTypes⟩
  { k with superTypes := k.superTypes.filter (ctx.notices scope) }

/-- The class with the supertypes that are looked at, its own and those of its companion. -/
def pruneClass (ctx : Context) (c : ClassDecl) : ClassDecl :=
  { c with
    superTypes := c.superTypes.filter (ctx.notices c.scope)
    companion := c.companion.map (ctx.pruneCompanion c) }

/-- A pruned declaration. There is nothing to be left away in an alias. -/
def pruneDeclaration (ctx : Context) : Declaration → Declaration
  | .ofClass c => .ofClass (ctx.pruneClass c)
  | .ofAlias a => .ofAlias a

/-- The context with pruned declarations. -/
def pruned (ctx : Context) : Context :=
  { ctx with index :=
    ⟨ctx.index.entries.map fun e => { e with declaration := ctx.pruneDeclaration e.declaration }⟩ }

/-- What a name means among pruned declarations. -/
def pruneReferent (ctx : Context) : Referent → Referent
  | .typeParameter i => .typeParameter i
  | .ofClass c => .ofClass (ctx.pruneClass c)
  | .ofAlias a => .ofAlias a
  | .external => .external

@[simp] theorem markers_pruned (ctx : Context) : ctx.pruned.markers = ctx.markers := rfl

@[simp] theorem qualifiedName_pruneClass (c : ClassDecl) :
    (ctx.pruneClass c).qualifiedName = c.qualifiedName := rfl

@[simp] theorem scope_pruneClass (c : ClassDecl) :
    (ctx.pruneClass c).scope = ctx.pruneScope c.scope := rfl

@[simp] theorem companionScope?_pruneClass (c : ClassDecl) :
    (ctx.pruneClass c).companionScope? = c.companionScope?.map ctx.pruneScope := by
  unfold ClassDecl.companionScope?
  rw [Option.map_map]
  show (c.companion.map _).map _ = _
  rw [Option.map_map]
  rfl

@[simp] theorem get?_pruned (name : String) :
    ctx.pruned.index.get? name = (ctx.index.get? name).map ctx.pruneDeclaration := by
  have hname : ((fun e : IndexEntry => e.name == name) ∘ fun e : IndexEntry =>
      { e with declaration := ctx.pruneDeclaration e.declaration }) = fun e => e.name == name := by
    funext e
    obtain ⟨d, origin⟩ := e
    cases d <;> rfl
  unfold DeclarationIndex.get? DeclarationIndex.entry?
  show ((ctx.index.entries.map _).find? _).map _ = _
  rw [List.find?_map, hname, Option.map_map, Option.map_map]
  rfl

@[simp] theorem class?_pruned (name : String) :
    ctx.pruned.index.class? name = (ctx.index.class? name).map ctx.pruneClass := by
  rw [DeclarationIndex.class?, DeclarationIndex.class?, get?_pruned]
  cases ctx.index.get? name with
  | none => rfl
  | some d => cases d <;> rfl

@[simp] theorem classes_pruned :
    ctx.pruned.index.classes = ctx.index.classes.map ctx.pruneClass := by
  unfold DeclarationIndex.classes DeclarationIndex.declarations
  show ((ctx.index.entries.map _).map _).filterMap _ = _
  rw [List.map_map, List.filterMap_map, List.filterMap_map, List.map_filterMap]
  refine congrArg (ctx.index.entries.filterMap ·) (funext fun e => ?_)
  obtain ⟨d, origin⟩ := e
  cases d <;> rfl

/-- A name means the same, apart from the supertypes of the class that it names. -/
theorem resolve_pruned (name : String) (scope : Option Scope) :
    ctx.pruned.index.resolve name (scope.map ctx.pruneScope) =
      ctx.pruneReferent (ctx.index.resolve name scope) := by
  have hparameter : (scope.map ctx.pruneScope).bind (·.parameterIndex? name) =
      scope.bind (·.parameterIndex? name) := by
    cases scope <;> rfl
  unfold DeclarationIndex.resolve
  rw [hparameter, get?_pruned]
  cases scope.bind (·.parameterIndex? name) with
  | some i => rfl
  | none =>
    cases ctx.index.get? name with
    | none => rfl
    | some d => cases d <;> rfl

theorem baseName_pruned (name : String) (scope : Option Scope) :
    ctx.pruned.baseName (scope.map ctx.pruneScope) name = ctx.baseName scope name := by
  rw [baseName, baseName, resolve_pruned]
  cases ctx.index.resolve name scope <;> rfl

mutual

theorem typeNameOf_pruned (scope : Option Scope) : ∀ t : TypeRef,
    ctx.pruned.typeNameOf (scope.map ctx.pruneScope) t = ctx.typeNameOf scope t
  | .mk name arguments nullable => by
    rw [typeNameOf, typeNameOf, baseName_pruned, typeNamesOf_pruned scope arguments]

theorem typeNameOfArgument_pruned (scope : Option Scope) : ∀ a : TypeArgument,
    ctx.pruned.typeNameOfArgument (scope.map ctx.pruneScope) a = ctx.typeNameOfArgument scope a
  | .star => by rw [typeNameOfArgument, typeNameOfArgument]
  | .type _ t => by rw [typeNameOfArgument, typeNameOfArgument, typeNameOf_pruned scope t]

theorem typeNamesOf_pruned (scope : Option Scope) : ∀ as : List TypeArgument,
    ctx.pruned.typeNamesOf (scope.map ctx.pruneScope) as = ctx.typeNamesOf scope as
  | [] => by rw [typeNamesOf, typeNamesOf]
  | a :: as => by
    rw [typeNamesOf, typeNamesOf, typeNameOfArgument_pruned scope a, typeNamesOf_pruned scope as]

end

/-- An alias is looked at only if it has the name of a marker. -/
theorem notices_of_resolve {ctx : Context} {s : Scope} {t : TypeRef}
    (h : ∀ a, ctx.index.resolve t.name (some s) ≠ .ofAlias a) : ctx.notices s t = true := by
  unfold notices
  cases hr : ctx.index.resolve t.name (some s) with
  | ofAlias a => exact absurd hr (h a)
  | _ => simp

theorem resolve_of_not_notices {ctx : Context} {s : Scope} {t : TypeRef}
    (h : ctx.notices s t = false) : ∃ a, ctx.index.resolve t.name (some s) = .ofAlias a := by
  by_contra hnot
  rw [notices_of_resolve (not_exists.1 hnot)] at h
  simp at h

/-! ### The search for the validator -/

/-- A pruned link. -/
def pruneLink (ctx : Context) (l : Link) : Link :=
  ⟨l.reference, ctx.pruneClass l.declaration⟩

theorem names_pruneLink (chain : List Link) :
    Link.names (chain.map ctx.pruneLink) = Link.names chain := by
  rw [Link.names, List.map_map]
  rfl

theorem scopeOf_pruneLink (root : Scope) (chain : List Link) :
    Link.scopeOf (ctx.pruneScope root) (chain.map ctx.pruneLink) =
      ctx.pruneScope (Link.scopeOf root chain) := by
  cases chain <;> rfl

/-- The validator that is listed in a scope is looked at. -/
theorem find?_isValidator_pruned (s : Scope) :
    (ctx.pruneScope s).superTypes.find? (ctx.pruned.isValidator (ctx.pruneScope s)) =
      s.superTypes.find? (ctx.isValidator s) := by
  refine find?_filter_of_imp (fun t ht => ?_) s.superTypes
  have hname : t.name = ctx.markers.valueValidator := by
    simp only [isValidator, Bool.and_eq_true, beq_iff_eq] at ht
    exact ht.1
  simp [notices, hname]

/-- What the search finds, with a pruned chain. -/
def pruneFound (ctx : Context) (found : List Link × TypeRef) : List Link × TypeRef :=
  (found.1.map ctx.pruneLink, found.2)

theorem findThrough_of_not_notices {ctx : Context} {root : Scope} {chain : List Link} {t : TypeRef}
    (h : ctx.notices (Link.scopeOf root chain) t = false) :
    ctx.findThrough root chain t = none := by
  obtain ⟨a, ha⟩ := resolve_of_not_notices h
  rw [findThrough, ha]

/-- The search for the validator goes the same way. -/
theorem findValidator_pruned (root : Scope) (chain : List Link) :
    ctx.pruned.findValidator (ctx.pruneScope root) (chain.map ctx.pruneLink) =
      (ctx.findValidator root chain).map ctx.pruneFound := by
  induction chain using Context.findValidator.induct ctx root with
  | case1 chain scope validator hlisted =>
    have hfind := find?_isValidator_pruned ctx (Link.scopeOf root chain)
    rw [← scopeOf_pruneLink ctx root chain] at hfind
    rw [findValidator_of_listed hlisted, findValidator_of_listed (hfind.trans hlisted)]
    rfl
  | case2 chain scope hlisted ih =>
    have hfind := find?_isValidator_pruned ctx (Link.scopeOf root chain)
    rw [← scopeOf_pruneLink ctx root chain] at hfind
    rw [findValidator_of_not_listed hlisted, findValidator_of_not_listed (hfind.trans hlisted)]
    -- a class leads on in both, and `ih` is about that class
    have hthrough : ctx.pruned.findThrough (ctx.pruneScope root) (chain.map ctx.pruneLink) =
        fun t => (ctx.findThrough root chain t).map ctx.pruneFound := by
      funext t
      have hresolve := resolve_pruned ctx t.name (some (Link.scopeOf root chain))
      rw [Option.map_some, ← scopeOf_pruneLink] at hresolve
      rw [findThrough, findThrough, hresolve, names_pruneLink]
      cases hr : ctx.index.resolve t.name (some (Link.scopeOf root chain)) with
      | ofClass c =>
        by_cases hmem : c.qualifiedName ∈ Link.names chain
        · simp [pruneReferent, hmem]
        · have hnew : (ctx.pruneClass c).qualifiedName ∉ Link.names chain := hmem
          refine (if_neg hnew).trans ((ih t c hr hmem).trans ?_)
          exact congrArg _ (if_neg hmem).symm
      | _ => rfl
    have hnone : ∀ t, ctx.notices (Link.scopeOf root chain) t = false →
        (ctx.findThrough root chain t).map ctx.pruneFound = none := by
      intro t ht
      rw [findThrough_of_not_notices ht]
      rfl
    rw [hthrough, scopeOf_pruneLink, List.map_findSome?]
    exact findSome?_filter_of_none hnone _

/-! ### The failure type -/

section

variable {bound : String → Nat → Except Problem TypeName}

mutual

theorem instantiate_pruned (s : Scope) : ∀ t : TypeRef,
    ctx.pruned.instantiate (ctx.pruneScope s) bound t = ctx.instantiate s bound t
  | .mk name arguments nullable => by
    have hresolve := resolve_pruned ctx name (some s)
    have hbase := baseName_pruned ctx name (some s)
    rw [Option.map_some] at hresolve hbase
    rw [instantiate, instantiate, hresolve, hbase, instantiateList_pruned s arguments]
    cases ctx.index.resolve name (some s) <;> rfl

theorem instantiateArgument_pruned (s : Scope) : ∀ a : TypeArgument,
    ctx.pruned.instantiateArgument (ctx.pruneScope s) bound a = ctx.instantiateArgument s bound a
  | .star => by rw [instantiateArgument, instantiateArgument]
  | .type _ t => by rw [instantiateArgument, instantiateArgument, instantiate_pruned s t]

theorem instantiateList_pruned (s : Scope) : ∀ as : List TypeArgument,
    ctx.pruned.instantiateList (ctx.pruneScope s) bound as = ctx.instantiateList s bound as
  | [] => by rw [instantiateList, instantiateList]
  | a :: as => by
    rw [instantiateList, instantiateList, instantiateArgument_pruned s a,
      instantiateList_pruned s as]

end

end

theorem concrete_pruned (value : String) (root : Scope) (chain : List Link) : ∀ t : TypeRef,
    ctx.pruned.concrete value (ctx.pruneScope root) (chain.map ctx.pruneLink) t =
      ctx.concrete value root chain t := by
  induction chain with
  | nil =>
    intro t
    rw [List.map_nil, concrete, concrete]
    exact instantiate_pruned ctx root t
  | cons l chain ih =>
    intro t
    have hrest : ctx.pruned.concrete value (ctx.pruneScope root) (chain.map ctx.pruneLink) =
        ctx.concrete value root chain := funext ih
    rw [List.map_cons, concrete, concrete, hrest]
    exact instantiate_pruned ctx l.declaration.scope t

/-- The failure type of a validated value, or the reason why it has none, is the same. -/
theorem failureTypeOf_pruned (c : ClassDecl) :
    ctx.pruned.failureTypeOf (ctx.pruneClass c) = ctx.failureTypeOf c := by
  unfold failureTypeOf
  rw [companionScope?_pruneClass]
  cases c.companionScope? with
  | none => rfl
  | some root =>
    have hfound := findValidator_pruned ctx root []
    rw [List.map_nil] at hfound
    simp only [Option.map_some, hfound]
    cases ctx.findValidator root [] with
    | none => rfl
    | some found =>
      obtain ⟨chain, validator⟩ := found
      have hconcrete : ctx.pruned.concrete c.qualifiedName (ctx.pruneScope root)
          (chain.map ctx.pruneLink) = ctx.concrete c.qualifiedName root chain :=
        funext (concrete_pruned ctx c.qualifiedName root chain)
      simp only [Option.map_some, pruneFound, qualifiedName_pruneClass, hconcrete]
      rfl

/-! ### Classification -/

theorem modelNames_pruned (c : ClassDecl) :
    ctx.pruned.modelNames (ctx.pruneClass c) = ctx.modelNames c :=
  rfl

/-- A class wraps the same value. -/
theorem validatedValue_pruned (c : ClassDecl) (nullable : Bool) :
    ctx.pruned.validatedValue (ctx.pruneClass c) nullable = ctx.validatedValue c nullable := by
  have hmarker : (ctx.pruneClass c).superTypes.find? (fun t => t.name == ctx.markers.valueObject) =
      c.superTypes.find? fun t => t.name == ctx.markers.valueObject := by
    refine find?_filter_of_imp (fun t ht => ?_) c.superTypes
    simp [notices, ht]
  have hfailure : ctx.pruned.failureType (ctx.pruneClass c) = ctx.failureType c := by
    rw [failureType, failureType, failureTypeOf_pruned, qualifiedName_pruneClass]
  have htype := typeNameOf_pruned ctx (some c.scope)
  unfold validatedValue
  simp only [markers_pruned, hmarker, hfailure, qualifiedName_pruneClass, scope_pruneClass]
  rw [Option.map_some] at htype
  simp only [htype]
  rfl

section

variable {expand expand' : AliasDecl → TypeRef → Resolution PropertyKind}

mutual

/-- A type is classified alike if references to aliases are expanded alike. -/
theorem classifyWith_pruned (hexpand : ∀ a t, expand' a t = expand a t) (scope : Option Scope) :
    ∀ t : TypeRef, ctx.pruned.classifyWith expand' (scope.map ctx.pruneScope) t =
      ctx.classifyWith expand scope t
  | .mk name arguments nullable => by
    rw [classifyWith, classifyWith, resolve_pruned,
      classifyArguments_pruned hexpand scope arguments]
    cases ctx.index.resolve name scope with
    | ofClass c =>
      simp only [pruneReferent, modelNames_pruned, validatedValue_pruned]
      rfl
    | ofAlias a => simp only [pruneReferent, hexpand]
    | _ => rfl

theorem classifyArgument_pruned (hexpand : ∀ a t, expand' a t = expand a t)
    (scope : Option Scope) : ∀ a : TypeArgument,
      ctx.pruned.classifyArgument expand' (scope.map ctx.pruneScope) a =
        ctx.classifyArgument expand scope a
  | .star => by rw [classifyArgument, classifyArgument]
  | .type _ t => by rw [classifyArgument, classifyArgument, classifyWith_pruned hexpand scope t]

theorem classifyArguments_pruned (hexpand : ∀ a t, expand' a t = expand a t)
    (scope : Option Scope) : ∀ as : List TypeArgument,
      ctx.pruned.classifyArguments expand' (scope.map ctx.pruneScope) as =
        ctx.classifyArguments expand scope as
  | [] => by rw [classifyArguments, classifyArguments]
  | a :: as => by
    rw [classifyArguments, classifyArguments, classifyArgument_pruned hexpand scope a,
      classifyArguments_pruned hexpand scope as]

end

end

theorem classifyAt_pruned (scope : Option Scope) (depth : Nat) : ∀ t : TypeRef,
    ctx.pruned.classifyAt (scope.map ctx.pruneScope) depth t = ctx.classifyAt scope depth t := by
  induction depth with
  | zero =>
    intro t
    rw [classifyAt, classifyAt]
    exact classifyWith_pruned ctx (fun _ _ => rfl) scope t
  | succ depth ih =>
    intro t
    rw [classifyAt, classifyAt]
    exact classifyWith_pruned ctx (fun a reference => ih _) scope t

theorem classify_pruned (scope : Option Scope) (t : TypeRef) :
    ctx.pruned.classify (scope.map ctx.pruneScope) t = ctx.classify scope t :=
  classifyAt_pruned ctx scope maxAliasDepth t

/-! ### Inheritance -/

theorem superInterface?_pruned (c : ClassDecl) (t : TypeRef) :
    ctx.pruned.superInterface? (ctx.pruneClass c) t =
      (ctx.superInterface? c t).map ctx.pruneClass := by
  have hresolve := resolve_pruned ctx t.name (some c.scope)
  rw [Option.map_some, ← scope_pruneClass] at hresolve
  rw [superInterface?, superInterface?, hresolve]
  cases ctx.index.resolve t.name (some c.scope) with
  | ofClass parent =>
    have hkind : (ctx.pruneClass parent).kind = parent.kind := rfl
    simp only [pruneReferent, hkind]
    split <;> rfl
  | _ => rfl

theorem parents_pruned (c : ClassDecl) :
    ctx.pruned.parents (ctx.pruneClass c) = (ctx.parents c).map ctx.pruneClass := by
  have hnone : ∀ t, ctx.notices c.scope t = false →
      ctx.pruned.superInterface? (ctx.pruneClass c) t = none := by
    intro t ht
    obtain ⟨a, ha⟩ := resolve_of_not_notices ht
    rw [superInterface?_pruned, superInterface?, ha]
    rfl
  rw [parents, parents, List.map_filterMap]
  show (c.superTypes.filter _).filterMap _ = _
  rw [filterMap_filter_of_none hnone]
  exact congrArg (c.superTypes.filterMap ·) (funext (superInterface?_pruned ctx c))

/-- A walk over pruned interfaces. -/
def pruneWalk (ctx : Context) (w : InterfaceWalk) : InterfaceWalk :=
  { w with finished := w.finished.map ctx.pruneClass }

/-- The walk over interfaces goes the same way. -/
theorem walkInterfaces_pruned (depth : Nat) : ∀ (w : InterfaceWalk) (c : ClassDecl),
    ctx.pruned.walkInterfaces depth (ctx.pruneWalk w) (ctx.pruneClass c) =
      ctx.pruneWalk (ctx.walkInterfaces depth w c) := by
  induction depth with
  | zero =>
    intro w c
    rfl
  | succ depth ih =>
    intro w c
    rw [walkInterfaces_succ, walkInterfaces_succ, parents_pruned, List.foldl_map]
    refine List.foldl_hom ctx.pruneWalk fun w' parent => ?_
    have hentered : (ctx.pruneWalk w').entered = w'.entered := rfl
    rw [enterParent, enterParent, qualifiedName_pruneClass, hentered]
    split
    · rfl
    · have hwalk := ih { w' with entered := parent.qualifiedName :: w'.entered } parent
      simp only [pruneWalk] at hwalk ⊢
      rw [hwalk]
      simp

theorem superInterfaces_pruned (c : ClassDecl) :
    ctx.pruned.superInterfaces (ctx.pruneClass c) = (ctx.superInterfaces c).map ctx.pruneClass := by
  rw [superInterfaces, superInterfaces, classes_pruned, List.length_map]
  exact congrArg (·.finished) (walkInterfaces_pruned ctx ctx.index.classes.length {} c)

/-- A property of a pruned class. -/
def pruneOwner (ctx : Context) (p : OwnedProperty) : OwnedProperty :=
  ⟨p.property, ctx.pruneClass p.owner⟩

theorem ofClass_pruneClass (c : ClassDecl) :
    OwnedProperty.ofClass (ctx.pruneClass c) = (OwnedProperty.ofClass c).map ctx.pruneOwner := by
  rw [OwnedProperty.ofClass, OwnedProperty.ofClass, List.map_map]
  rfl

theorem keepFirst_pruneOwner (ps : List OwnedProperty) (p : OwnedProperty) :
    OwnedProperty.keepFirst (ps.map ctx.pruneOwner) (ctx.pruneOwner p) =
      (OwnedProperty.keepFirst ps p).map ctx.pruneOwner := by
  unfold OwnedProperty.keepFirst
  rw [List.any_map]
  show (if ps.any (fun q => q.property.name == p.property.name) then _ else _) = _
  split
  · rfl
  · rw [List.map_append]
    rfl

theorem override_pruneOwner (ps : List OwnedProperty) (p : OwnedProperty) :
    OwnedProperty.override (ps.map ctx.pruneOwner) (ctx.pruneOwner p) =
      (OwnedProperty.override ps p).map ctx.pruneOwner := by
  induction ps with
  | nil => rfl
  | cons q ps ih =>
    rw [List.map_cons, OwnedProperty.override, OwnedProperty.override, ih]
    show (if q.property.name = p.property.name then _ else _) = _
    split <;> rfl

/-- The same properties are inherited and declared. -/
theorem declaredProperties_pruned (c : ClassDecl) :
    ctx.pruned.declaredProperties (ctx.pruneClass c) =
      (ctx.declaredProperties c).map ctx.pruneOwner := by
  have hinherited : ctx.pruned.inheritedProperties (ctx.pruneClass c) =
      (ctx.inheritedProperties c).map ctx.pruneOwner := by
    have hkind : (ctx.pruneClass c).kind = c.kind := rfl
    have howned : ((ctx.superInterfaces c).map ctx.pruneClass).flatMap OwnedProperty.ofClass =
        ((ctx.superInterfaces c).flatMap OwnedProperty.ofClass).map ctx.pruneOwner := by
      rw [List.flatMap_map, List.map_flatMap]
      exact List.flatMap_congr fun parent _ => ofClass_pruneClass ctx parent
    rw [inheritedProperties, inheritedProperties, hkind, superInterfaces_pruned, howned]
    split
    · have hempty : List.map ctx.pruneOwner [] = [] := rfl
      rw [List.foldl_map, ← hempty]
      exact List.foldl_hom (List.map ctx.pruneOwner) (keepFirst_pruneOwner ctx)
    · rfl
  rw [declaredProperties, declaredProperties, hinherited, ofClass_pruneClass, List.foldl_map]
  exact List.foldl_hom (List.map ctx.pruneOwner) (override_pruneOwner ctx)

/-! ### Properties -/

theorem classifyAll_pruned (c : ClassDecl) (ps : List OwnedProperty) :
    ctx.pruned.classifyAll (ctx.pruneClass c) (ps.map ctx.pruneOwner) = ctx.classifyAll c ps := by
  induction ps with
  | nil => rfl
  | cons p ps ih =>
    have hclassify : ctx.pruned.classifyDeclared (ctx.pruneClass c) (ctx.pruneOwner p) =
        ctx.classifyDeclared c p := by
      have hkind := classify_pruned ctx (some p.owner.scope) p.property.type
      rw [classifyDeclared, classifyDeclared, ← hkind]
      rfl
    rw [List.map_cons, classifyAll, classifyAll, hclassify, ih]

theorem buildDeclared_pruned (c : ClassDecl) :
    ctx.pruned.buildDeclared (ctx.pruneClass c) = ctx.buildDeclared c := by
  unfold buildDeclared
  rw [declaredProperties_pruned]
  simp only [List.isEmpty_map, classifyAll_pruned, qualifiedName_pruneClass]

/-! ### Composition -/

/-- The walk over annotations does not look at supertypes. -/
theorem walkComposition_pruned (path : List String) (a : Annotation) :
    ctx.pruned.walkComposition path a = ctx.walkComposition path a := by
  have haddField : ctx.pruned.markers.addField = ctx.markers.addField := rfl
  induction path, a using Context.walkComposition.induct ctx with
  | case1 path a hignored =>
    have hignored' : ctx.pruned.markers.isIgnored a.type = true := hignored
    rw [walkComposition_of_ignored hignored, walkComposition_of_ignored hignored']
  | case2 path a hignored hdirective =>
    have hadds : ctx.AddsField a := ⟨Bool.eq_false_iff.2 hignored, hdirective⟩
    have hadds' : ctx.pruned.AddsField a := ⟨hadds.notIgnored, hdirective⟩
    rw [walkComposition_of_directive hadds, walkComposition_of_directive hadds']
  | case3 path a hignored hdirective hpath =>
    have hignored := Bool.eq_false_iff.2 hignored
    have hignored' : ctx.pruned.markers.isIgnored a.type = false := hignored
    rw [walkComposition_of_mem hignored hdirective hpath,
      walkComposition_of_mem hignored' (haddField ▸ hdirective) hpath]
  | case4 path a hignored hdirective hpath hclass =>
    have hignored := Bool.eq_false_iff.2 hignored
    have hignored' : ctx.pruned.markers.isIgnored a.type = false := hignored
    have hclass' : ctx.pruned.index.class? a.type = none := by simp [hclass]
    rw [walkComposition_of_not_class hignored hdirective hpath hclass,
      walkComposition_of_not_class hignored' (haddField ▸ hdirective) hpath hclass']
  | case5 path a hignored hdirective hpath c hclass ih =>
    have hignored := Bool.eq_false_iff.2 hignored
    have hignored' : ctx.pruned.markers.isIgnored a.type = false := hignored
    have hclass' : ctx.pruned.index.class? a.type = some (ctx.pruneClass c) := by simp [hclass]
    rw [walkComposition_of_class hignored hdirective hpath hclass,
      walkComposition_of_class hignored' (haddField ▸ hdirective) hpath hclass']
    exact List.flatMap_congr fun b _ => ih b

theorem compositionEvents_pruned (annotations : List Annotation) :
    ctx.pruned.compositionEvents annotations = ctx.compositionEvents annotations :=
  List.flatMap_congr fun a _ => by rw [walkComposition_pruned]

theorem addComposed_pruned (c : ClassDecl) (fields : List ComposedField) :
    ∀ properties, ctx.pruned.addComposed (ctx.pruneClass c) properties fields =
      ctx.addComposed c properties fields := by
  induction fields with
  | nil =>
    intro properties
    rfl
  | cons f fields ih =>
    intro properties
    have hkind : ctx.pruned.classify none f.field.type = ctx.classify none f.field.type :=
      classify_pruned ctx none f.field.type
    have hlocation : (ctx.pruneClass c).location = c.location := rfl
    simp only [addComposed, hkind, hlocation, qualifiedName_pruneClass, ih]

/-! ### Targets -/

/-- A target with a pruned class. -/
def pruneTarget (ctx : Context) (t : Target) : Target :=
  ⟨ctx.pruneClass t.decl, t.mark⟩

theorem targets_pruned : ctx.pruned.targets = ctx.targets.map ctx.pruneTarget := by
  rw [targets, targets, classes_pruned, List.filterMap_map, List.map_filterMap]
  refine congrArg (ctx.index.classes.filterMap ·) (funext fun c => ?_)
  have hmark : (ctx.pruneClass c).targetMark? ctx.markers = c.targetMark? ctx.markers := rfl
  show Target.of? ctx.markers (ctx.pruneClass c) = (Target.of? ctx.markers c).map ctx.pruneTarget
  rw [Target.of?, Target.of?, hmark, Option.map_map]
  rfl

theorem buildTemplate_pruned (c : ClassDecl) :
    ctx.pruned.buildTemplate (ctx.pruneClass c) = ctx.buildTemplate c := by
  have hannotations : (ctx.pruneClass c).annotations = c.annotations := rfl
  simp only [buildTemplate, compositionWarnings, expandComposition, compositionEvents_pruned,
    buildDeclared_pruned, addComposed_pruned, hannotations, qualifiedName_pruneClass]

theorem collectTemplates_pruned (cs : List ClassDecl) :
    ctx.pruned.collectTemplates cs = ctx.collectTemplates cs := by
  induction cs with
  | nil => rfl
  | cons c cs ih => simp only [collectTemplates, templateOf, markers_pruned, ih]

theorem modelOf_pruned (t : Target) : ctx.pruned.modelOf (ctx.pruneTarget t) = ctx.modelOf t := by
  obtain ⟨c, mark⟩ := t
  cases mark with
  | template use =>
    show ctx.pruned.analyzeTemplate (ctx.pruneClass c) use = ctx.analyzeTemplate c use
    rw [analyzeTemplate, analyzeTemplate, collectTemplates_pruned, buildTemplate_pruned]
    rfl
  | validatable =>
    show ctx.pruned.analyzeValidatable (ctx.pruneClass c) = ctx.analyzeValidatable c
    have hcompanion : (ctx.pruneClass c).companion = c.companion.map (ctx.pruneCompanion c) := rfl
    rw [analyzeValidatable, analyzeValidatable, buildDeclared_pruned, hcompanion]
    cases c.companion <;> rfl

/-- A target is analyzed to the same model. -/
theorem analyze_pruned (t : Target) : ctx.pruned.analyze (ctx.pruneTarget t) = ctx.analyze t := by
  rw [analyze, analyze, modelOf_pruned]

/-! ### Runs -/

section

variable {α : Type}

/-- What a target came to, with a pruned class. -/
def pruneOutcome (ctx : Context) (o : Outcome α) : Outcome α :=
  ⟨ctx.pruneTarget o.target, o.result⟩

theorem treatAll_pruned {step step' : Target → Analysis α}
    (h : ∀ t, step' (ctx.pruneTarget t) = step t) (targets : List Target) :
    treatAll step' (targets.map ctx.pruneTarget) =
      List.map ctx.pruneOutcome <$> treatAll step targets := by
  induction targets with
  | nil => rfl
  | cons t targets ih =>
    have htreat : treat step' (ctx.pruneTarget t) = ctx.pruneOutcome <$> treat step t := by
      rw [treat, treat, h, map_bind]
      refine congrArg _ (funext fun result => ?_)
      cases result with
      | ok a => rfl
      | error problem => rfl
    rw [List.map_cons, treatAll, treatAll, htreat, ih]
    simp

/-- What all targets come to, from an empty cache. -/
theorem run_treatAll_pruned {step step' : Target → Analysis α}
    (h : ∀ t, step' (ctx.pruneTarget t) = step t) :
    (treatAll step' ctx.pruned.targets).run {} =
      (((treatAll step ctx.targets).run {}).1.map ctx.pruneOutcome,
        ((treatAll step ctx.targets).run {}).2) := by
  rw [targets_pruned, treatAll_pruned ctx h]
  rfl

/-- Whatever is read off outcomes is the same if it does not look at the supertypes. -/
theorem filterMap_pruneOutcome {β : Type} {f : Outcome α → Option β}
    (h : ∀ o, f (ctx.pruneOutcome o) = f o) (outcomes : List (Outcome α)) :
    (outcomes.map ctx.pruneOutcome).filterMap f = outcomes.filterMap f := by
  rw [List.filterMap_map]
  exact congrArg (outcomes.filterMap ·) (funext h)

end

theorem analysisReport_pruned (ctx : Context) : ctx.pruned.analysisReport = ctx.analysisReport := by
  rw [analysisReport, analysisReport, run_treatAll_pruned ctx (analyze_pruned ctx)]
  dsimp only
  rw [filterMap_pruneOutcome ctx fun _ => rfl, filterMap_pruneOutcome ctx fun _ => rfl]
  rfl

theorem generationReport_pruned (ctx : Context) :
    ctx.pruned.generationReport = ctx.generationReport := by
  have hgenerate : ∀ t, ctx.pruned.generate (ctx.pruneTarget t) = ctx.generate t := by
    intro t
    rw [generate, generate, analyze_pruned]
    rfl
  rw [generationReport, generationReport, run_treatAll_pruned ctx hgenerate]
  dsimp only
  rw [filterMap_pruneOutcome ctx fun _ => rfl, filterMap_pruneOutcome ctx fun _ => rfl,
    List.length_map]
  rfl

/-- **Supertypes that are written by an alias do not count.**  Without them every class has the
same properties, fails with the same type or for the same reason, and is the same validated
value; and every run comes to the same models, files, problems and warnings. -/
theorem reports_pruned (ctx : Context) :
    (∀ c, ctx.pruned.declaredProperties (ctx.pruneClass c) =
        (ctx.declaredProperties c).map ctx.pruneOwner ∧
      ctx.pruned.failureTypeOf (ctx.pruneClass c) = ctx.failureTypeOf c ∧
      ∀ nullable, ctx.pruned.validatedValue (ctx.pruneClass c) nullable =
        ctx.validatedValue c nullable) ∧
    ctx.pruned.analysisReport = ctx.analysisReport ∧
      ctx.pruned.generationReport = ctx.generationReport := by
  refine ⟨fun c => ⟨?_, ?_, ?_⟩, ?_, ?_⟩
  · exact declaredProperties_pruned ctx c
  · exact failureTypeOf_pruned ctx c
  · exact validatedValue_pruned ctx c
  · exact analysisReport_pruned ctx
  · exact generationReport_pruned ctx

end Context

/-! ### A street

A template and a companion, each with a supertype that may be written by an alias. -/

namespace Sample

def checks : TypeRef :=
  validator (.named "kotlin.String") (.named "kotlin.Int") (.named "t.Street")

def aliases : List AliasDecl :=
  [⟨"t", "Labelled", [], .named "t.Named", [], none⟩, ⟨"t", "Checks", [], checks, [], none⟩]

def person (superType : TypeRef) : ClassDecl :=
  { declared "PersonTemplate" [] [superType] none with kind := .interface }

/-- The declarations, with the supertypes of the template and of the companion. -/
def streets (superType extended : TypeRef) : Context :=
  let named : ClassDecl := { declared "Named" [] [] none with
    kind := .interface
    properties := [⟨"name", .named "kotlin.String", [], none⟩] }
  ⟨⟨([named, person superType, value "Street" extended].map Declaration.ofClass ++
    aliases.map Declaration.ofAlias).map (⟨·, "t.json"⟩)⟩, {}⟩

end Sample

/-- With an alias in the place of a supertype, a property and a failure type are lost. -/
theorem Context.lost_by_alias :
    Sample.aliases.map (fun a => a.expand (.named a.qualifiedName)) =
        [.named "t.Named", Sample.checks] ∧
      ((Sample.streets (.named "t.Named") Sample.checks).declaredProperties
        (Sample.person (.named "t.Named"))).map (·.property.name) = ["name"] ∧
      ((Sample.streets (.named "t.Labelled") Sample.checks).declaredProperties
        (Sample.person (.named "t.Labelled"))).map (·.property.name) = [] ∧
      ((Sample.streets (.named "t.Named") Sample.checks).failureTypeOf
        (Sample.value "Street" Sample.checks)).map (·.display) =
          .ok "t.Failure<kotlin.Int, t.Street>" ∧
      ((Sample.streets (.named "t.Named") (.named "t.Checks")).failureTypeOf
        (Sample.value "Street" (.named "t.Checks"))).map (·.display) =
          .error (.unresolvedFailure "t.Street" (.noValidator "modelsmith.core.ValueValidator")) :=
  ⟨by decide +kernel, by decide +kernel, by decide +kernel, by decide +kernel, by decide +kernel⟩

end ModelForge
