/-
Two indexes that agree on what is looked up.

An analysis looks up names only, and only such as are mentioned by what it has found.  So two
contexts that give the same declarations for a set of names, where these declarations mention
no other names, cannot be told apart from inside of the set:

* `Context.Agrees` — the two contexts have the same markers and the same declarations for the
  names of a set, which is closed under mentioning;
* `Context.Agrees.findValidator`, `Context.Agrees.superInterfaces`,
  `Context.Agrees.walkComposition` — the three walks over declarations take the same way in
  both;
* `Context.Agrees.classifyAt` — both classify a type of the set alike, aliases included, which
  pass on the names of their arguments;
* `Context.Agrees.generate` — so a class of the set comes to the same in both: the same files
  or the same problem, with the same warnings, and it leaves the same cache.
-/
import ModelForge.Proofs.MentionedNames
import ModelForge.Proofs.InterfaceWalk
import ModelForge.Proofs.AnalyzedModels
import ModelForge.Proofs.ValidatorChain
import ModelForge.Proofs.ComposedFields

namespace ModelForge

namespace Context

/-- The two contexts have the same markers, and the same declarations for the names of a set.
What is declared for a name of the set mentions only names of the set. -/
structure Agrees (within : String → Prop) (ctx ctx' : Context) : Prop where
  markers : ctx'.markers = ctx.markers
  get? : ∀ {name : String}, within name → ctx'.index.get? name = ctx.index.get? name
  closed : ∀ {name : String} {d : Declaration}, within name → ctx.index.get? name = some d →
    ∀ n ∈ d.mentions, within n

variable {within : String → Prop} {ctx ctx' : Context} {scope : Option Scope}

namespace Agrees

/-! ### Names -/

theorem class? (h : Agrees within ctx ctx') {name : String} (hname : within name) :
    ctx'.index.class? name = ctx.index.class? name := by
  rw [DeclarationIndex.class?, DeclarationIndex.class?, h.get? hname]

theorem resolve (h : Agrees within ctx ctx') {name : String} (hname : within name)
    (scope : Option Scope) : ctx'.index.resolve name scope = ctx.index.resolve name scope := by
  rw [DeclarationIndex.resolve, DeclarationIndex.resolve, h.get? hname]

/-- What a name of the set refers to mentions only names of the set. -/
theorem mentions_class (h : Agrees within ctx ctx') {name : String} {c : ClassDecl}
    (hname : within name) (hc : ctx.index.class? name = some c) : ∀ n ∈ c.mentions, within n := by
  obtain ⟨d, hd, hclass⟩ := Option.bind_eq_some_iff.1 hc
  cases d with
  | ofClass c' =>
    cases hclass
    exact h.closed hname hd
  | ofAlias a => cases hclass

theorem mentions_alias (h : Agrees within ctx ctx') {name : String} {a : AliasDecl}
    (hname : within name) (ha : ctx.index.resolve name scope = .ofAlias a) :
    ∀ n ∈ a.mentions, within n := by
  unfold DeclarationIndex.resolve at ha
  split at ha
  · cases ha
  · split at ha
    · cases ha
    · rename_i a' hget
      cases ha
      exact h.closed hname hget
    · cases ha

theorem baseName (h : Agrees within ctx ctx') {name : String} (hname : within name) :
    ctx'.baseName scope name = ctx.baseName scope name := by
  rw [Context.baseName, Context.baseName, h.resolve hname]

/-! ### Written types -/

mutual

theorem typeNameOf (h : Agrees within ctx ctx') : ∀ t : TypeRef, (∀ n ∈ t.mentions, within n) →
    ctx'.typeNameOf scope t = ctx.typeNameOf scope t
  | .mk name arguments nullable, ht => by
    have hname := ht name List.mem_cons_self
    have harguments := h.typeNamesOf arguments fun n hn => ht n (List.mem_cons_of_mem _ hn)
    rw [Context.typeNameOf, Context.typeNameOf, h.baseName hname, harguments]

theorem typeNameOfArgument (h : Agrees within ctx ctx') : ∀ a : TypeArgument,
    (∀ n ∈ TypeRef.mentionsOfArgument a, within n) →
      ctx'.typeNameOfArgument scope a = ctx.typeNameOfArgument scope a
  | .star, _ => by rw [Context.typeNameOfArgument, Context.typeNameOfArgument]
  | .type _ ref, ha => by
    rw [Context.typeNameOfArgument, Context.typeNameOfArgument, h.typeNameOf ref ha]

theorem typeNamesOf (h : Agrees within ctx ctx') : ∀ as : List TypeArgument,
    (∀ n ∈ TypeRef.mentionsOfList as, within n) →
      ctx'.typeNamesOf scope as = ctx.typeNamesOf scope as
  | [], _ => by rw [Context.typeNamesOf, Context.typeNamesOf]
  | a :: as, has => by
    have hfirst := h.typeNameOfArgument a fun n hn => has n (List.mem_append_left _ hn)
    have hrest := h.typeNamesOf as fun n hn => has n (List.mem_append_right _ hn)
    rw [Context.typeNamesOf, Context.typeNamesOf, hfirst, hrest]

end

end Agrees

end Context

/-- What follows a step that uses nothing counts only for the value that the step gives. -/
theorem Analysis.of_bind_congr {α β : Type} {r : Except Problem α} {f g : α → Analysis β}
    (h : ∀ a, r = .ok a → f a = g a) : Analysis.of r >>= f = Analysis.of r >>= g := by
  cases r with
  | error p => rfl
  | ok a =>
    show f a = g a
    exact h a rfl

/-! ### Failure types -/

/-- The link's reference and its class mention only names of a set. -/
structure Link.Within (within : String → Prop) (l : Link) : Prop where
  reference : ∀ n ∈ l.reference.mentions, within n
  declaration : ∀ n ∈ l.declaration.mentions, within n

/-- The supertypes of a scope mention only names of a set. -/
def Scope.Within (within : String → Prop) (s : Scope) : Prop :=
  ∀ t ∈ s.superTypes, ∀ n ∈ t.mentions, within n

section

variable {within : String → Prop}

theorem ClassDecl.scope_within {c : ClassDecl} (hc : ∀ n ∈ c.mentions, within n) :
    c.scope.Within within :=
  fun _ ht n hn => hc n (mentions_superType ht hn)

theorem ClassDecl.companionScope_within {c : ClassDecl} {k : Scope}
    (hc : ∀ n ∈ c.mentions, within n) (hk : c.companionScope? = some k) : k.Within within :=
  fun _ ht n hn => hc n (mentions_companion hk ht hn)

theorem Link.scopeOf_within {root : Scope} {chain : List Link} (hroot : root.Within within)
    (hchain : ∀ l ∈ chain, l.Within within) : (Link.scopeOf root chain).Within within := by
  cases chain with
  | nil => exact hroot
  | cons l chain => exact ClassDecl.scope_within (hchain l List.mem_cons_self).declaration

/-- What a link passes for a type parameter is mentioned by its reference. -/
theorem Link.argumentFor_within {l : Link} {value parameter : String} {index : Nat} {t : TypeRef}
    (hl : l.Within within) (h : l.argumentFor value parameter index = .ok t) :
    ∀ n ∈ t.mentions, within n := by
  unfold Link.argumentFor at h
  dsimp only at h
  split at h
  · cases h
  · split at h
    · rename_i v ref hargument
      cases h
      exact fun n hn => hl.reference n (TypeRef.mentions_argument hargument hn)
    · cases h
    · cases h

end

namespace Context

variable {within : String → Prop} {ctx ctx' : Context} {scope : Option Scope}

namespace Agrees

theorem isValidator (h : Agrees within ctx ctx') (s : Scope) :
    ctx'.isValidator s = ctx.isValidator s := by
  funext reference
  rw [Context.isValidator, Context.isValidator, h.markers]

/-- Searching a list with two functions that agree on its items. -/
theorem findSome?_congr {α β : Type} {f g : α → Option β} {as : List α}
    (h : ∀ a ∈ as, f a = g a) : as.findSome? f = as.findSome? g := by
  induction as with
  | nil => rfl
  | cons a as ih =>
    have hrest := ih fun b hb => h b (List.mem_cons_of_mem _ hb)
    rw [List.findSome?_cons, List.findSome?_cons, h a List.mem_cons_self, hrest]

/-- The search for the validator interface goes the same way, and all that it comes by stays
within the set. -/
theorem findValidator (h : Agrees within ctx ctx') {root : Scope} (hroot : root.Within within)
    (chain : List Link) (hchain : ∀ l ∈ chain, l.Within within) :
    ctx'.findValidator root chain = ctx.findValidator root chain ∧
      ∀ links validator, ctx.findValidator root chain = some (links, validator) →
        (∀ l ∈ links, l.Within within) ∧ ∀ n ∈ validator.mentions, within n := by
  induction chain using Context.findValidator.induct ctx root with
  | case1 chain scope validator hlisted =>
    have hlisted' : (Link.scopeOf root chain).superTypes.find?
        (ctx'.isValidator (Link.scopeOf root chain)) = some validator := by
      rw [h.isValidator]
      exact hlisted
    rw [findValidator_of_listed hlisted, findValidator_of_listed hlisted']
    -- the chain ends here, with a supertype of its last class
    refine ⟨rfl, fun links validator' heq => ?_⟩
    cases heq
    have hmem := List.mem_of_find?_eq_some hlisted
    exact ⟨hchain, Link.scopeOf_within hroot hchain validator hmem⟩
  | case2 chain scope hlisted ih =>
    have hlisted' : (Link.scopeOf root chain).superTypes.find?
        (ctx'.isValidator (Link.scopeOf root chain)) = none := by
      rw [h.isValidator]
      exact hlisted
    have hsupers := Link.scopeOf_within hroot hchain
    -- a supertype leads to the same class in both, and `ih` is about that class
    have hlink : ∀ reference ∈ (Link.scopeOf root chain).superTypes, ∀ declaration,
        ctx.index.resolve reference.name (some (Link.scopeOf root chain)) = .ofClass declaration →
          ∀ l ∈ ⟨reference, declaration⟩ :: chain, l.Within within := by
      intro reference hmem declaration hresolve l hl
      rcases List.mem_cons.1 hl with rfl | hl
      · have hname := hsupers reference hmem _ reference.name_mem_mentions
        have hclass := DeclarationIndex.class?_eq_some_of_resolve hresolve
        exact ⟨hsupers reference hmem, h.mentions_class hname hclass⟩
      · exact hchain l hl
    have hthrough : ∀ reference ∈ (Link.scopeOf root chain).superTypes,
        ctx'.findThrough root chain reference = ctx.findThrough root chain reference := by
      intro reference hmem
      have hname := hsupers reference hmem _ reference.name_mem_mentions
      rw [findThrough, findThrough, h.resolve hname]
      split
      · rename_i declaration hresolve
        split
        · rfl
        · rename_i hnew
          exact (ih reference declaration hresolve hnew (hlink reference hmem _ hresolve)).1
      · rfl
    rw [findValidator_of_not_listed hlisted, findValidator_of_not_listed hlisted']
    refine ⟨findSome?_congr hthrough, fun links validator hfound => ?_⟩
    obtain ⟨reference, hmem, hfound⟩ := List.exists_of_findSome?_eq_some hfound
    obtain ⟨declaration, hresolve, hnew, hfound⟩ := findThrough_eq_some_iff.1 hfound
    exact (ih reference declaration hresolve hnew (hlink reference hmem _ hresolve)).2
      links validator hfound

section

variable {s : Scope} {bound : String → Nat → Except Problem TypeName}

mutual

theorem instantiate (h : Agrees within ctx ctx') : ∀ t : TypeRef, (∀ n ∈ t.mentions, within n) →
    ctx'.instantiate s bound t = ctx.instantiate s bound t
  | .mk name arguments nullable, ht => by
    have hname := ht name List.mem_cons_self
    have harguments := h.instantiateList arguments fun n hn => ht n (List.mem_cons_of_mem _ hn)
    rw [Context.instantiate, Context.instantiate, h.resolve hname, h.baseName hname, harguments]

theorem instantiateArgument (h : Agrees within ctx ctx') : ∀ a : TypeArgument,
    (∀ n ∈ TypeRef.mentionsOfArgument a, within n) →
      ctx'.instantiateArgument s bound a = ctx.instantiateArgument s bound a
  | .star, _ => by rw [Context.instantiateArgument, Context.instantiateArgument]
  | .type _ ref, ha => by
    rw [Context.instantiateArgument, Context.instantiateArgument, h.instantiate ref ha]

theorem instantiateList (h : Agrees within ctx ctx') : ∀ as : List TypeArgument,
    (∀ n ∈ TypeRef.mentionsOfList as, within n) →
      ctx'.instantiateList s bound as = ctx.instantiateList s bound as
  | [], _ => by rw [Context.instantiateList, Context.instantiateList]
  | a :: as, has => by
    have hfirst := h.instantiateArgument a fun n hn => has n (List.mem_append_left _ hn)
    have hrest := h.instantiateList as fun n hn => has n (List.mem_append_right _ hn)
    rw [Context.instantiateList, Context.instantiateList, hfirst, hrest]

end

end

/-- A reference at the end of a chain is written out alike. -/
theorem concrete (h : Agrees within ctx ctx') {value : String} {root : Scope} (chain : List Link)
    (hchain : ∀ l ∈ chain, l.Within within) :
    ∀ t : TypeRef, (∀ n ∈ t.mentions, within n) →
      ctx'.concrete value root chain t = ctx.concrete value root chain t := by
  induction chain with
  | nil =>
    intro t ht
    rw [Context.concrete, Context.concrete]
    exact h.instantiate t ht
  | cons l chain ih =>
    intro t ht
    -- what the link passes is written out one link earlier
    have hbound : (fun parameter index => l.argumentFor value parameter index >>=
          ctx'.concrete value root chain) =
        fun parameter index => l.argumentFor value parameter index >>=
          ctx.concrete value root chain := by
      funext parameter index
      cases hargument : l.argumentFor value parameter index with
      | error p => rfl
      | ok u =>
        have hu := Link.argumentFor_within (hchain l List.mem_cons_self) hargument
        exact ih (fun l' hl' => hchain l' (List.mem_cons_of_mem _ hl')) u hu
    rw [Context.concrete, Context.concrete]
    show ctx'.instantiate l.declaration.scope (fun parameter index =>
        l.argumentFor value parameter index >>= ctx'.concrete value root chain) t =
      ctx.instantiate l.declaration.scope (fun parameter index =>
        l.argumentFor value parameter index >>= ctx.concrete value root chain) t
    rw [hbound]
    exact h.instantiate t ht

theorem mentions_failureArgument {validator failure : TypeRef}
    (h : ctx.failureArgument validator = .ok failure) : failure.mentions ⊆ validator.mentions := by
  unfold failureArgument at h
  dsimp only at h
  split at h
  · rename_i v failure' _ heq
    cases h
    have hsecond : validator.arguments[1]? = some (.type v failure) := by
      rw [heq]
      rfl
    exact TypeRef.mentions_argument hsecond
  · cases h
  · cases h

theorem failureTypeOf (h : Agrees within ctx ctx') {c : ClassDecl}
    (hc : ∀ n ∈ c.mentions, within n) : ctx'.failureTypeOf c = ctx.failureTypeOf c := by
  unfold Context.failureTypeOf
  cases hk : c.companionScope? with
  | none => rfl
  | some root =>
    have hroot := ClassDecl.companionScope_within hc hk
    -- the same search, the same argument of what it finds, and the same way back
    obtain ⟨hsearch, hfound⟩ := h.findValidator hroot [] (by simp)
    dsimp only
    rw [hsearch, h.markers]
    cases hv : ctx.findValidator root [] with
    | none => rfl
    | some found =>
      obtain ⟨chain, validator⟩ := found
      obtain ⟨hchain, hvalidator⟩ := hfound chain validator hv
      dsimp only
      have hargument : ctx'.failureArgument validator = ctx.failureArgument validator := by
        rw [failureArgument, failureArgument, h.markers]
      rw [hargument]
      cases hfailure : ctx.failureArgument validator with
      | error p => rfl
      | ok failure =>
        refine h.concrete chain hchain failure fun n hn => hvalidator n ?_
        exact mentions_failureArgument hfailure hn

/-! ### Classification -/

theorem modelNames (h : Agrees within ctx ctx') (c : ClassDecl) :
    ctx'.modelNames c = ctx.modelNames c := by
  rw [Context.modelNames, Context.modelNames, modelNamesOf, modelNamesOf, h.markers]

theorem validatedValue (h : Agrees within ctx ctx') {c : ClassDecl}
    (hc : ∀ n ∈ c.mentions, within n) (nullable : Bool) :
    ctx'.validatedValue c nullable = ctx.validatedValue c nullable := by
  unfold Context.validatedValue
  rw [h.markers]
  split
  · rfl
  · rename_i marker hmarker
    split
    · rfl
    · rename_i wrapped hwrapped
      have hsuper := ClassDecl.scope_within hc marker (List.mem_of_find?_eq_some hmarker)
      have hwritten : ctx'.typeNameOf (some c.scope) wrapped =
          ctx.typeNameOf (some c.scope) wrapped :=
        h.typeNameOf wrapped fun n hn => hsuper n (TypeRef.mentions_argument? hwrapped hn)
      rw [Context.failureType, Context.failureType, h.failureTypeOf hc, hwritten]

section

variable {expand expand' : AliasDecl → TypeRef → Resolution PropertyKind}

mutual

/-- A type is classified alike if references to aliases are expanded alike. -/
theorem classifyWith (h : Agrees within ctx ctx')
    (hexpand : ∀ a reference, (∀ n ∈ a.mentions, within n) → (∀ n ∈ reference.mentions, within n) →
      expand' a reference = expand a reference) :
    ∀ t : TypeRef, (∀ n ∈ t.mentions, within n) →
      ctx'.classifyWith expand' scope t = ctx.classifyWith expand scope t
  | .mk name arguments nullable, ht => by
    have hname := ht name List.mem_cons_self
    have harguments := h.classifyArguments hexpand arguments fun n hn =>
      ht n (List.mem_cons_of_mem _ hn)
    rw [Context.classifyWith, Context.classifyWith, h.resolve hname, harguments, h.markers]
    split
    · rfl
    · rfl
    · -- a class is mentioned by its name, and what it mentions is in the set
      rename_i c hr
      have hc := h.mentions_class hname (DeclarationIndex.class?_eq_some_of_resolve hr)
      rw [h.modelNames, h.validatedValue hc]
    · -- an alias passes on what it mentions and what the reference mentions
      rename_i a hr
      rw [hexpand a _ (h.mentions_alias hname hr) ht]

theorem classifyArgument (h : Agrees within ctx ctx')
    (hexpand : ∀ a reference, (∀ n ∈ a.mentions, within n) → (∀ n ∈ reference.mentions, within n) →
      expand' a reference = expand a reference) :
    ∀ a : TypeArgument, (∀ n ∈ TypeRef.mentionsOfArgument a, within n) →
      ctx'.classifyArgument expand' scope a = ctx.classifyArgument expand scope a
  | .star, _ => by rw [Context.classifyArgument, Context.classifyArgument]
  | .type _ ref, ha => by
    rw [Context.classifyArgument, Context.classifyArgument, h.classifyWith hexpand ref ha]

theorem classifyArguments (h : Agrees within ctx ctx')
    (hexpand : ∀ a reference, (∀ n ∈ a.mentions, within n) → (∀ n ∈ reference.mentions, within n) →
      expand' a reference = expand a reference) :
    ∀ as : List TypeArgument, (∀ n ∈ TypeRef.mentionsOfList as, within n) →
      ctx'.classifyArguments expand' scope as = ctx.classifyArguments expand scope as
  | [], _ => by rw [Context.classifyArguments, Context.classifyArguments]
  | a :: as, has => by
    have hfirst := h.classifyArgument hexpand a fun n hn => has n (List.mem_append_left _ hn)
    have hrest := h.classifyArguments hexpand as fun n hn => has n (List.mem_append_right _ hn)
    rw [Context.classifyArguments, Context.classifyArguments, hfirst, hrest]

end

end

theorem classifyAt (h : Agrees within ctx ctx') (depth : Nat) :
    ∀ t : TypeRef, (∀ n ∈ t.mentions, within n) →
      ctx'.classifyAt scope depth t = ctx.classifyAt scope depth t := by
  induction depth with
  | zero =>
    intro t ht
    rw [Context.classifyAt, Context.classifyAt]
    exact h.classifyWith (fun _ _ _ _ => rfl) t ht
  | succ depth ih =>
    intro t ht
    rw [Context.classifyAt, Context.classifyAt]
    refine h.classifyWith (fun a reference ha href => ih _ fun n hn => ?_) t ht
    exact (AliasDecl.mentions_expand hn).elim (ha n) (href n)

theorem classify (h : Agrees within ctx ctx') {t : TypeRef} (ht : ∀ n ∈ t.mentions, within n) :
    ctx'.classify scope t = ctx.classify scope t :=
  h.classifyAt maxAliasDepth t ht

/-! ### Inheritance -/

theorem parents (h : Agrees within ctx ctx') {c : ClassDecl} (hc : ∀ n ∈ c.mentions, within n) :
    ctx'.parents c = ctx.parents c := by
  refine List.filterMap_congr fun superType hmem => ?_
  have hname := hc _ (ClassDecl.mentions_superType hmem superType.name_mem_mentions)
  rw [superInterface?, superInterface?, h.resolve hname]

/-- The parents of a class of the set are classes of the set. -/
theorem mentions_parent (h : Agrees within ctx ctx') {c : ClassDecl}
    (hc : ∀ n ∈ c.mentions, within n) :
    ∀ parent ∈ ctx.parents c, ∀ n ∈ parent.mentions, within n := by
  intro parent hparent
  obtain ⟨superType, hmem, hsuper⟩ := List.mem_filterMap.1 hparent
  have hname := hc _ (ClassDecl.mentions_superType hmem superType.name_mem_mentions)
  unfold superInterface? at hsuper
  split at hsuper
  · rename_i parent' hresolve
    split at hsuper
    · cases hsuper
      exact h.mentions_class hname (DeclarationIndex.class?_eq_some_of_resolve hresolve)
    · cases hsuper
  · cases hsuper

theorem walkInterfaces (h : Agrees within ctx ctx') (depth : Nat) :
    ∀ (w : InterfaceWalk) (c : ClassDecl), (∀ n ∈ c.mentions, within n) →
      ctx'.walkInterfaces depth w c = ctx.walkInterfaces depth w c := by
  induction depth with
  | zero =>
    intro w c _
    rfl
  | succ depth ih =>
    intro w c hc
    rw [walkInterfaces_succ, walkInterfaces_succ, h.parents hc]
    refine List.foldl_ext _ _ w fun w' parent hparent => ?_
    rw [enterParent, enterParent, ih _ parent (h.mentions_parent hc parent hparent)]

/-- The indexes may be of different sizes; enough levels for one and the other are enough for
both. -/
theorem superInterfaces (h : Agrees within ctx ctx') {c : ClassDecl}
    (hc : ∀ n ∈ c.mentions, within n) : ctx'.superInterfaces c = ctx.superInterfaces c := by
  have hdepth := Nat.le_max_left ctx.index.classes.length ctx'.index.classes.length
  have hdepth' := Nat.le_max_right ctx.index.classes.length ctx'.index.classes.length
  rw [superInterfaces_eq hdepth, superInterfaces_eq hdepth', h.walkInterfaces _ {} c hc]

theorem declaredProperties (h : Agrees within ctx ctx') {c : ClassDecl}
    (hc : ∀ n ∈ c.mentions, within n) :
    ctx'.declaredProperties c = ctx.declaredProperties c := by
  unfold Context.declaredProperties inheritedProperties
  rw [h.superInterfaces hc]

/-- The type of a declared property of a class of the set mentions only names of the set. -/
theorem mentions_declared (h : Agrees within ctx ctx') {c : ClassDecl}
    (hc : ∀ n ∈ c.mentions, within n) {p : OwnedProperty} (hp : p ∈ ctx.declaredProperties c) :
    ∀ n ∈ p.property.type.mentions, within n := by
  obtain ⟨hproperty, howner⟩ := mem_declaredProperties hp
  have howned : ∀ n ∈ p.owner.mentions, within n := by
    rcases howner with howner | howner
    · rw [howner]
      exact hc
    · exact mem_superInterfaces (fun _ => h.mentions_parent) hc p.owner howner
  exact fun n hn => howned n (ClassDecl.mentions_property hproperty hn)

theorem classifyAll (h : Agrees within ctx ctx') (c : ClassDecl) (ps : List OwnedProperty)
    (hps : ∀ p ∈ ps, ∀ n ∈ p.property.type.mentions, within n) :
    ctx'.classifyAll c ps = ctx.classifyAll c ps := by
  induction ps with
  | nil => rfl
  | cons p ps ih =>
    have hrest := ih fun q hq => hps q (List.mem_cons_of_mem _ hq)
    rw [Context.classifyAll, Context.classifyAll, classifyDeclared, classifyDeclared,
      h.classify (hps p List.mem_cons_self), h.markers, hrest]

theorem buildDeclared (h : Agrees within ctx ctx') {c : ClassDecl}
    (hc : ∀ n ∈ c.mentions, within n) : ctx'.buildDeclared c = ctx.buildDeclared c := by
  have hall := h.classifyAll c _ fun p hp => h.mentions_declared hc hp
  unfold Context.buildDeclared
  rw [h.declaredProperties hc]
  dsimp only
  rw [hall]

/-! ### Composition -/

theorem isIgnored (h : Agrees within ctx ctx') (name : String) :
    ctx'.markers.isIgnored name = ctx.markers.isIgnored name := by
  rw [h.markers]

theorem addsField_iff (h : Agrees within ctx ctx') {a : Annotation} :
    ctx'.AddsField a ↔ ctx.AddsField a := by
  refine ⟨fun ha => ⟨?_, ?_⟩, fun ha => ⟨?_, ?_⟩⟩
  · exact h.isIgnored a.type ▸ ha.notIgnored
  · exact h.markers ▸ ha.directive
  · exact h.isIgnored a.type ▸ ha.notIgnored
  · exact h.markers ▸ ha.directive

/-- The walk over annotations takes the same way: what it enters is named by an annotation of
the set. -/
theorem walkComposition (h : Agrees within ctx ctx') (path : List String) (a : Annotation)
    (ha : ∀ n ∈ a.mentions, within n) :
    ctx'.walkComposition path a = ctx.walkComposition path a := by
  have haddField : ctx'.markers.addField = ctx.markers.addField := by rw [h.markers]
  induction path, a using Context.walkComposition.induct ctx with
  | case1 path a hignored =>
    have hignored' := (h.isIgnored a.type).trans hignored
    rw [walkComposition_of_ignored hignored, walkComposition_of_ignored hignored']
  | case2 path a hignored hdirective =>
    have hadds : ctx.AddsField a := ⟨Bool.eq_false_iff.2 hignored, hdirective⟩
    rw [walkComposition_of_directive hadds, walkComposition_of_directive (h.addsField_iff.2 hadds)]
  | case3 path a hignored hdirective hpath =>
    have hignored := Bool.eq_false_iff.2 hignored
    have hignored' := (h.isIgnored a.type).trans hignored
    rw [walkComposition_of_mem hignored hdirective hpath,
      walkComposition_of_mem hignored' (haddField ▸ hdirective) hpath]
  | case4 path a hignored hdirective hpath hclass =>
    have hignored := Bool.eq_false_iff.2 hignored
    have hignored' := (h.isIgnored a.type).trans hignored
    have hclass' := (h.class? (ha _ a.type_mem_mentions)).trans hclass
    rw [walkComposition_of_not_class hignored hdirective hpath hclass,
      walkComposition_of_not_class hignored' (haddField ▸ hdirective) hpath hclass']
  | case5 path a hignored hdirective hpath c hclass ih =>
    have hignored := Bool.eq_false_iff.2 hignored
    have hignored' := (h.isIgnored a.type).trans hignored
    have hname := ha _ a.type_mem_mentions
    have hclass' := (h.class? hname).trans hclass
    rw [walkComposition_of_class hignored hdirective hpath hclass,
      walkComposition_of_class hignored' (haddField ▸ hdirective) hpath hclass']
    -- the class that is entered mentions what its annotations mention
    refine List.flatMap_congr fun b hmem => ih b fun n hn => ?_
    exact h.mentions_class hname hclass n (ClassDecl.mentions_annotation hmem hn)

theorem compositionEvents (h : Agrees within ctx ctx') {annotations : List Annotation}
    (ha : ∀ a ∈ annotations, ∀ n ∈ a.mentions, within n) :
    ctx'.compositionEvents annotations = ctx.compositionEvents annotations :=
  List.flatMap_congr fun a hmem => by rw [h.walkComposition [] a (ha a hmem)]

/-- Every annotation that is reached mentions only names of the set. -/
theorem mentions_reachable (h : Agrees within ctx ctx') {annotations : List Annotation}
    (ha : ∀ a ∈ annotations, ∀ n ∈ a.mentions, within n) {d : Annotation}
    (hd : ctx.Reachable annotations d) : ∀ n ∈ d.mentions, within n := by
  induction hd with
  | listed hmem => exact ha _ hmem
  | @carried a b _ hb ih =>
    obtain ⟨c, hclass, hmem⟩ := hb.written
    have hc := h.mentions_class (ih _ a.type_mem_mentions) hclass
    exact fun n hn => hc n (ClassDecl.mentions_annotation hmem hn)

/-- The type of a field that is added mentions only names of the set. -/
theorem mentions_composed (h : Agrees within ctx ctx') {declaration : String}
    {annotations : List Annotation} (ha : ∀ a ∈ annotations, ∀ n ∈ a.mentions, within n)
    {fields : List ComposedField}
    (hfields : ctx.expandComposition declaration annotations = .ok fields) :
    ∀ f ∈ fields, ∀ n ∈ f.field.type.mentions, within n := by
  intro f hf n hn
  have hexpansion := (expansion_of_eq_ok hfields).2
  obtain ⟨d, hd, -, hdecode⟩ := (hexpansion.mem_iff f.field).1 (List.mem_map_of_mem hf)
  exact h.mentions_reachable ha hd n (FieldDirective.mentions_decode hdecode hn)

theorem addComposed (h : Agrees within ctx ctx') (c : ClassDecl) (fields : List ComposedField)
    (hfields : ∀ f ∈ fields, ∀ n ∈ f.field.type.mentions, within n) :
    ∀ properties : List Property,
      ctx'.addComposed c properties fields = ctx.addComposed c properties fields := by
  induction fields with
  | nil => exact fun _ => rfl
  | cons f fields ih =>
    intro properties
    have hclassify : ctx'.classify none f.field.type = ctx.classify none f.field.type :=
      h.classify (hfields f List.mem_cons_self)
    have hrest := ih fun g hg => hfields g (List.mem_cons_of_mem _ hg)
    simp only [Context.addComposed, hclassify, hrest]

/-! ### Targets -/

theorem collectTemplates (h : Agrees within ctx ctx') (cs : List ClassDecl) :
    ctx'.collectTemplates cs = ctx.collectTemplates cs := by
  induction cs with
  | nil => rfl
  | cons c cs ih => simp only [Context.collectTemplates, templateOf, h.markers, ih]

theorem expandComposition (h : Agrees within ctx ctx') {annotations : List Annotation}
    (ha : ∀ a ∈ annotations, ∀ n ∈ a.mentions, within n) (declaration : String) :
    ctx'.expandComposition declaration annotations =
      ctx.expandComposition declaration annotations := by
  rw [Context.expandComposition, Context.expandComposition, h.compositionEvents ha]

theorem compositionWarnings (h : Agrees within ctx ctx') {annotations : List Annotation}
    (ha : ∀ a ∈ annotations, ∀ n ∈ a.mentions, within n) :
    ctx'.compositionWarnings annotations = ctx.compositionWarnings annotations := by
  rw [Context.compositionWarnings, Context.compositionWarnings, h.compositionEvents ha]

theorem buildTemplate (h : Agrees within ctx ctx') {c : ClassDecl}
    (hc : ∀ n ∈ c.mentions, within n) : ctx'.buildTemplate c = ctx.buildTemplate c := by
  have ha : ∀ a ∈ c.annotations, ∀ n ∈ a.mentions, within n := fun a hmem n hn =>
    hc n (ClassDecl.mentions_annotation hmem hn)
  unfold Context.buildTemplate
  rw [h.buildDeclared hc, h.compositionWarnings ha, h.expandComposition ha]
  refine congrArg _ (funext fun declared => congrArg _ (funext fun _ => ?_))
  -- the composed fields are classified only if there are any
  refine Analysis.of_bind_congr fun fields hfields => ?_
  rw [h.addComposed c fields (h.mentions_composed ha hfields) declared]

theorem analyzeTemplate (h : Agrees within ctx ctx') {c : ClassDecl}
    (hc : ∀ n ∈ c.mentions, within n) (mark : Annotation) :
    ctx'.analyzeTemplate c mark = ctx.analyzeTemplate c mark := by
  unfold Context.analyzeTemplate
  rw [h.markers, h.collectTemplates, h.buildTemplate hc]

theorem analyzeValidatable (h : Agrees within ctx ctx') {c : ClassDecl}
    (hc : ∀ n ∈ c.mentions, within n) : ctx'.analyzeValidatable c = ctx.analyzeValidatable c := by
  unfold Context.analyzeValidatable
  rw [h.markers, h.buildDeclared hc]

/-- **What is not mentioned does not count.**  Two contexts that agree on a set of names analyze
a class of the set in the same way: from every cache they come to the same model or problem,
with the same warnings, and leave the same cache. -/
theorem analyze (h : Agrees within ctx ctx') {t : Target} (ht : ∀ n ∈ t.decl.mentions, within n) :
    ctx'.analyze t = ctx.analyze t := by
  have hmodel : ctx'.modelOf t = ctx.modelOf t := by
    obtain ⟨c, mark⟩ := t
    cases mark with
    | template use => exact h.analyzeTemplate ht use
    | validatable => exact h.analyzeValidatable ht
  rw [Context.analyze, Context.analyze, hmodel]

theorem generate (h : Agrees within ctx ctx') {t : Target} (ht : ∀ n ∈ t.decl.mentions, within n) :
    ctx'.generate t = ctx.generate t := by
  rw [Context.generate, Context.generate, h.analyze ht, h.markers]

end Agrees

end Context

end ModelForge
