/-
The search for the validator interface is complete.

The search never enters a class that is on its way up already, which cuts hierarchies that run in
a circle.  A failure type is missing only if the validator interface cannot be reached at all:

* `Context.ListsValidator` — a scope lists the validator interface itself;
* `Context.Chain` — a chain of classes, each named by a supertype of the one before, to one that
  lists the validator interface.  A class may be met again and again;
* `Context.Chain.exists_nodup` — a chain may be cut short to one without repeated classes;
* `Context.findValidator_eq_none_iff_chain` — so the search fails if and only if there is no chain;
* `Context.failureTypeOf_of_chain` — if there is one, only the arguments on the way can be wrong.

The statement about failure types is `Context.failureType_of_chain`.
-/
import ModelForge.Proofs.ClassificationProblems
import ModelForge.Proofs.FailureType

namespace ModelForge

namespace Context

/-! ### Chains -/

/-- The validator interface is a supertype that is written in the scope, under a name that is no
type parameter there. -/
def ListsValidator (ctx : Context) (scope : Scope) : Prop :=
  ∃ reference ∈ scope.superTypes,
    reference.name = ctx.markers.valueValidator ∧ reference.name ∉ scope.typeParameters

/-- The classes lead from a scope to one that lists the validator interface: each of them is what a
supertype refers to that is written in the scope of the one before. -/
inductive Chain (ctx : Context) : Scope → List ClassDecl → Prop
  | listed {scope : Scope} (hlisted : ctx.ListsValidator scope) : Chain ctx scope []
  | inherited {scope : Scope} {reference : TypeRef} {declaration : ClassDecl}
    {classes : List ClassDecl} (hmem : reference ∈ scope.superTypes)
    (hresolve : ctx.index.resolve reference.name (some scope) = .ofClass declaration)
    (hchain : Chain ctx declaration.scope classes) : Chain ctx scope (declaration :: classes)

variable {ctx : Context} {scope : Scope} {classes : List ClassDecl}

theorem isValidator_iff {reference : TypeRef} : ctx.isValidator scope reference = true ↔
    reference.name = ctx.markers.valueValidator ∧ reference.name ∉ scope.typeParameters := by
  rw [isValidator, Bool.and_eq_true, beq_iff_eq, Option.isNone_iff_eq_none, Scope.parameterIndex?,
    List.idxOf?_eq_none_iff]

theorem listsValidator_iff : ctx.ListsValidator scope ↔
    ∃ validator, scope.superTypes.find? (ctx.isValidator scope) = some validator := by
  rw [← Option.isSome_iff_exists, List.find?_isSome]
  exact exists_congr fun _ => and_congr_right fun _ => isValidator_iff.symm

/-- The classes of a chain are declared. -/
theorem Chain.declares (h : ctx.Chain scope classes) :
    ∀ c ∈ classes, ctx.index.Declares c := by
  induction h with
  | listed => exact nofun
  | inherited _ hresolve _ ih =>
    intro c hc
    rcases List.mem_cons.1 hc with rfl | hc
    · exact DeclarationIndex.declares_of_resolve hresolve
    · exact ih c hc

/-- A chain leads on from each of its classes. -/
theorem Chain.suffix {earlier later : List ClassDecl} {c : ClassDecl}
    (h : ctx.Chain scope (earlier ++ c :: later)) : ctx.Chain c.scope later := by
  induction earlier generalizing scope with
  | nil =>
    cases h with
    | inherited _ _ hchain => exact hchain
  | cons first earlier ih =>
    cases h with
    | inherited _ _ hchain => exact ih hchain

/-- Declared classes of one name are the same. -/
theorem eq_of_qualifiedName_eq {c d : ClassDecl} (hc : ctx.index.Declares c)
    (hd : ctx.index.Declares d) (h : c.qualifiedName = d.qualifiedName) : c = d := by
  rw [DeclarationIndex.Declares, h] at hc
  exact Option.some.inj (hc.symm.trans hd)

/-- A chain can do without what lies between two occurrences of a class. -/
theorem Chain.exists_nodup (h : ctx.Chain scope classes) :
    ∃ shorter, ctx.Chain scope shorter ∧ (shorter.map ClassDecl.qualifiedName).Nodup := by
  induction h with
  | listed hlisted => exact ⟨[], .listed hlisted, List.nodup_nil⟩
  | @inherited scope reference declaration classes hmem hresolve _ ih =>
    obtain ⟨shorter, hchain, hnodup⟩ := ih
    by_cases hnew : declaration.qualifiedName ∈ shorter.map ClassDecl.qualifiedName
    · -- the class comes again: the chain goes on from where it comes
      obtain ⟨c, hc, hname⟩ := List.mem_map.1 hnew
      obtain rfl : c = declaration := eq_of_qualifiedName_eq (hchain.declares c hc)
        (DeclarationIndex.declares_of_resolve hresolve) hname
      obtain ⟨earlier, later, rfl⟩ := List.append_of_mem hc
      rw [List.map_append] at hnodup
      exact ⟨c :: later, .inherited hmem hresolve hchain.suffix,
        (List.nodup_append.1 hnodup).2.1⟩
    · exact ⟨declaration :: shorter, .inherited hmem hresolve hchain,
        List.nodup_cons.2 ⟨hnew, hnodup⟩⟩

/-! ### The search -/

/-- A chain without repeated classes, none of which has been entered, is a way that the search
goes. -/
theorem Chain.leads (h : ctx.Chain scope classes) :
    ∀ entered : List String, (classes.map ClassDecl.qualifiedName).Nodup →
      (∀ c ∈ classes, c.qualifiedName ∉ entered) →
        ∃ links validator, ctx.Leads scope entered links validator := by
  induction h with
  | listed hlisted =>
    intro entered _ _
    obtain ⟨validator, hfind⟩ := listsValidator_iff.1 hlisted
    exact ⟨[], validator, .listed hfind⟩
  | @inherited scope reference declaration classes hmem hresolve _ ih =>
    intro entered hnodup hnew
    obtain ⟨hfirst, hrest⟩ := List.nodup_cons.1 hnodup
    have hlater : ∀ c ∈ classes, c.qualifiedName ∉ declaration.qualifiedName :: entered := by
      intro c hc hentered
      rcases List.mem_cons.1 hentered with heq | hentered
      · exact hfirst (heq ▸ List.mem_map_of_mem hc)
      · exact hnew c (List.mem_cons_of_mem _ hc) hentered
    obtain ⟨links, validator, hleads⟩ := ih (declaration.qualifiedName :: entered) hrest hlater
    exact ⟨⟨reference, declaration⟩ :: links, validator,
      .inherited hmem hresolve (hnew declaration List.mem_cons_self) hleads⟩

theorem Leads.chain {entered : List String} {links : List Link} {validator : TypeRef}
    (h : ctx.Leads scope entered links validator) :
    ctx.Chain scope (links.map Link.declaration) := by
  induction h with
  | listed hlisted => exact .listed (listsValidator_iff.2 ⟨_, hlisted⟩)
  | inherited hmem hresolve _ _ ih => exact .inherited hmem hresolve ih

/-- The search fails if and only if there is no chain, however the classes hang together. -/
theorem findValidator_eq_none_iff_chain {root : Scope} :
    ctx.findValidator root [] = none ↔ ¬ ∃ classes, ctx.Chain root classes := by
  rw [findValidator_eq_none_iff]
  constructor
  · rintro hnone ⟨classes, hchain⟩
    obtain ⟨shorter, hshorter, hnodup⟩ := hchain.exists_nodup
    obtain ⟨links, validator, hleads⟩ := hshorter.leads [] hnodup fun _ _ => nofun
    exact hnone links validator hleads
  · exact fun hnone links validator hleads => hnone ⟨_, hleads.chain⟩

/-! ### Failure types -/

theorem failureTypeOf_of_chain {value : ClassDecl} {root : Scope}
    (hroot : value.companionScope? = some root) (h : ctx.Chain root classes) :
    (∃ failure, ctx.failureTypeOf value = .ok failure) ∨
      ∃ e, ctx.failureTypeOf value = .error e ∧ e.isBinding = true := by
  obtain ⟨⟨chain, validator⟩, hfind⟩ : ∃ found, ctx.findValidator root [] = some found :=
    Option.ne_none_iff_exists'.1 fun hnone =>
      findValidator_eq_none_iff_chain.1 hnone ⟨classes, h⟩
  have hvalue : ctx.failureTypeOf value =
      ctx.failureArgument validator >>= ctx.concrete value.qualifiedName root chain := by
    unfold failureTypeOf
    simp only [hroot, hfind]
  cases hfailure : ctx.failureTypeOf value with
  | ok failure => exact .inl ⟨failure, rfl⟩
  | error e => exact .inr ⟨e, rfl, isBinding_of_bind_concrete (hvalue ▸ hfailure)⟩

theorem failureTypeOf_of_not_chain {value : ClassDecl} {root : Scope}
    (hroot : value.companionScope? = some root) (h : ¬ ∃ classes, ctx.Chain root classes) :
    ctx.failureTypeOf value = .error
      (.unresolvedFailure value.qualifiedName (.noValidator ctx.markers.valueValidator)) := by
  have hfind := findValidator_eq_none_iff_chain.2 h
  unfold failureTypeOf
  simp only [hroot, hfind]

/-- **The search for a failure type is complete.**  Whatever has been asked before, the failure type
of a declared value with a companion is unresolved if and only if no chain of declared classes leads
from the companion to the validator interface.  If there is one, the value has a failure type or its
arguments do not bind the parameters on the way; if there is none, the problem names the value and
the validator interface. -/
theorem failureType_of_chain (ctx : Context) (qs : List Query)
    (hqs : ∀ q ∈ qs, q.Concerns ctx.index) (value : ClassDecl) (hvalue : ctx.index.Declares value)
    (root : Scope) (hroot : value.companionScope? = some root) :
    ((∃ name reason, (ctx.failureType value).result (ctx.cacheAfter qs) =
        .error (.unresolvedFailure name reason)) ↔ ¬ ∃ classes, ctx.Chain root classes) ∧
    ((∃ classes, ctx.Chain root classes) →
      (∃ failure, (ctx.failureType value).result (ctx.cacheAfter qs) = .ok failure) ∨
        ∃ e, (ctx.failureType value).result (ctx.cacheAfter qs) = .error e ∧ e.isBinding = true) ∧
    ((¬ ∃ classes, ctx.Chain root classes) →
      (ctx.failureType value).result (ctx.cacheAfter qs) = .error
        (.unresolvedFailure value.qualifiedName (.noValidator ctx.markers.valueValidator))) := by
  rw [(failureType_spec hvalue).1 (sound_cacheAfter hqs)]
  refine ⟨⟨?_, fun hnone => ⟨_, _, failureTypeOf_of_not_chain hroot hnone⟩⟩,
    fun ⟨_, hchain⟩ => failureTypeOf_of_chain hroot hchain, failureTypeOf_of_not_chain hroot⟩
  rintro ⟨name, reason, hresult⟩ ⟨classes, hchain⟩
  rcases failureTypeOf_of_chain hroot hchain with ⟨failure, hok⟩ | ⟨e, herror, hbinding⟩
  · rw [hresult] at hok
    cases hok
  · -- an unresolved failure type is no problem with arguments
    rw [hresult] at herror
    cases herror
    cases hbinding

end Context

/-! ### Circles

`Hither` and `Thither` extend each other, and `Thither` extends `Top` as well, so that `Tied` gets
out of the circle.  `Lone` extends itself and nothing else. -/

namespace Sample

def hither : ClassDecl :=
  declared "Hither" [] [.named "t.Thither"] none

def thither : ClassDecl :=
  declared "Thither" [] [.named "t.Hither",
    applied "t.Top" [.named "kotlin.Int", .named "kotlin.Boolean", .named "kotlin.Long"]] none

def lone : ClassDecl :=
  declared "Lone" [] [.named "t.Lone"] none

def tied : ClassDecl :=
  value "Tied" (.named "t.Hither")

def loose : ClassDecl :=
  value "Loose" (.named "t.Lone")

def circles : Context :=
  ⟨⟨[top, hither, thither, lone, tied, loose].map fun c => ⟨.ofClass c, "t.json"⟩⟩, {}⟩

/-- The chain goes round once more than it has to. -/
theorem chain_tied : circles.Chain ⟨"t.Tied.Companion", [], [.named "t.Hither"]⟩
    [hither, thither, hither, thither, top] := by
  refine .inherited List.mem_cons_self rfl (.inherited List.mem_cons_self rfl ?_)
  refine .inherited List.mem_cons_self rfl (.inherited List.mem_cons_self rfl ?_)
  refine .inherited (List.mem_cons_of_mem _ List.mem_cons_self) rfl (.listed ?_)
  exact ⟨_, List.mem_cons_self, rfl, by decide +kernel⟩

theorem not_chain_lone (classes : List ClassDecl) : ¬ circles.Chain lone.scope classes := by
  induction classes with
  | nil =>
    rintro ⟨reference, hmem, hname, -⟩
    obtain rfl := List.mem_singleton.1 hmem
    exact absurd hname (by decide +kernel)
  | cons c classes ih =>
    rintro (_ | ⟨hmem, hresolve, hchain⟩)
    obtain rfl := List.mem_singleton.1 hmem
    cases hresolve
    exact ih hchain

theorem not_chain_loose :
    ¬ ∃ classes, circles.Chain ⟨"t.Loose.Companion", [], [.named "t.Lone"]⟩ classes := by
  rintro ⟨_, ⟨reference, hmem, hname, -⟩ | ⟨hmem, hresolve, hchain⟩⟩
  · obtain rfl := List.mem_singleton.1 hmem
    exact absurd hname (by decide +kernel)
  · obtain rfl := List.mem_singleton.1 hmem
    cases hresolve
    exact not_chain_lone _ hchain

end Sample

theorem Context.failureType_of_chain_circles :
    (∀ q ∈ [Query.failureType Sample.loose], q.Concerns Sample.circles.index) ∧
    Sample.circles.index.Declares Sample.tied ∧ Sample.circles.index.Declares Sample.loose ∧
    ((∃ failure, (Sample.circles.failureType Sample.tied).result
        (Sample.circles.cacheAfter [.failureType Sample.loose]) = .ok failure) ∨
      ∃ e, (Sample.circles.failureType Sample.tied).result
        (Sample.circles.cacheAfter [.failureType Sample.loose]) = .error e ∧ e.isBinding = true) ∧
    (Sample.circles.failureType Sample.loose).result
        (Sample.circles.cacheAfter [.failureType Sample.loose]) =
      .error (.unresolvedFailure "t.Loose" (.noValidator "modelsmith.core.ValueValidator")) := by
  have htied : Sample.circles.index.Declares Sample.tied := rfl
  have hloose : Sample.circles.index.Declares Sample.loose := rfl
  have hqs : ∀ q ∈ [Query.failureType Sample.loose], q.Concerns Sample.circles.index := by
    intro q hq
    obtain rfl := List.mem_singleton.1 hq
    exact hloose
  obtain ⟨-, hfound, -⟩ := Context.failureType_of_chain _ _ hqs _ htied _ rfl
  obtain ⟨-, -, hmissing⟩ := Context.failureType_of_chain _ _ hqs _ hloose _ rfl
  exact ⟨hqs, htied, hloose, hfound ⟨_, Sample.chain_tied⟩, hmissing Sample.not_chain_loose⟩

end ModelForge
