/-
The chain to the validator interface.

`Context.findValidator` looks for the validator interface on a stack of links.  Here the same
is said without a stack, from the companion upwards:

* `Context.Leads` — links that lead from a scope to one that lists the validator interface,
  by way of classes that are entered once each;
* `Context.LeadsFirst` — the first such links, where a validator that is listed directly comes
  before all further steps and earlier supertypes come before later ones;
* `Context.findValidator_eq_none_iff` and `Context.findValidator_eq_some_iff` — the search
  fails if and only if no links lead to the validator interface, and otherwise it gives the
  first ones.

The links are listed with the companion's first here; the search keeps the last one on top.
-/
import ModelForge.Analysis.Failure

namespace ModelForge

namespace Context

/-- The links lead from a scope to a class that lists the validator interface, or the scope
lists it itself. None of the classes `entered` is entered, and no class twice. -/
inductive Leads (ctx : Context) : Scope → List String → List Link → TypeRef → Prop
  | listed {scope : Scope} {entered : List String} {validator : TypeRef}
      (hlisted : scope.superTypes.find? (ctx.isValidator scope) = some validator) :
      Leads ctx scope entered [] validator
  | inherited {scope : Scope} {entered : List String} {reference validator : TypeRef}
      {declaration : ClassDecl} {links : List Link}
      (hmem : reference ∈ scope.superTypes)
      (hresolve : ctx.index.resolve reference.name (some scope) = .ofClass declaration)
      (hnew : declaration.qualifiedName ∉ entered)
      (hleads : Leads ctx declaration.scope (declaration.qualifiedName :: entered) links validator) :
      Leads ctx scope entered (⟨reference, declaration⟩ :: links) validator

/-- No links lead to the validator interface by way of a supertype of the scope. -/
def LeadsNowhere (ctx : Context) (scope : Scope) (entered : List String) (reference : TypeRef) :
    Prop :=
  ∀ declaration, ctx.index.resolve reference.name (some scope) = .ofClass declaration →
    declaration.qualifiedName ∉ entered → ∀ links validator,
      ¬ ctx.Leads declaration.scope (declaration.qualifiedName :: entered) links validator

/-- The first links, depth first, that lead from a scope to the validator interface. -/
inductive LeadsFirst (ctx : Context) : Scope → List String → List Link → TypeRef → Prop
  | listed {scope : Scope} {entered : List String} {validator : TypeRef}
      (hlisted : scope.superTypes.find? (ctx.isValidator scope) = some validator) :
      LeadsFirst ctx scope entered [] validator
  | inherited {scope : Scope} {entered : List String} {reference validator : TypeRef}
      {declaration : ClassDecl} {links : List Link} {earlier later : List TypeRef}
      (hlisted : scope.superTypes.find? (ctx.isValidator scope) = none)
      (hsuper : scope.superTypes = earlier ++ reference :: later)
      (hearlier : ∀ r ∈ earlier, ctx.LeadsNowhere scope entered r)
      (hresolve : ctx.index.resolve reference.name (some scope) = .ofClass declaration)
      (hnew : declaration.qualifiedName ∉ entered)
      (hfirst : LeadsFirst ctx declaration.scope (declaration.qualifiedName :: entered) links
        validator) :
      LeadsFirst ctx scope entered (⟨reference, declaration⟩ :: links) validator

variable {ctx : Context} {root : Scope}

/-- The search by way of one supertype, when the validator is not listed at the end of the
chain. -/
def findThrough (ctx : Context) (root : Scope) (chain : List Link) (reference : TypeRef) :
    Option (List Link × TypeRef) :=
  match ctx.index.resolve reference.name (some (Link.scopeOf root chain)) with
  | .ofClass declaration =>
    if declaration.qualifiedName ∈ Link.names chain then none
    else ctx.findValidator root (⟨reference, declaration⟩ :: chain)
  | _ => none

theorem findValidator_of_listed {chain : List Link} {validator : TypeRef}
    (h : (Link.scopeOf root chain).superTypes.find? (ctx.isValidator (Link.scopeOf root chain)) =
      some validator) :
    ctx.findValidator root chain = some (chain, validator) := by
  rw [findValidator, h]

theorem findValidator_of_not_listed {chain : List Link}
    (h : (Link.scopeOf root chain).superTypes.find? (ctx.isValidator (Link.scopeOf root chain)) =
      none) :
    ctx.findValidator root chain =
      (Link.scopeOf root chain).superTypes.findSome? (ctx.findThrough root chain) := by
  rw [findValidator, h]
  refine congrArg (fun f => List.findSome? f _) (funext fun reference => ?_)
  rw [findThrough]
  split
  · rename_i declaration hr
    rw [hr]
    simp only [dite_eq_ite]
  · rename_i hr
    split
    · rename_i declaration hr'
      exact absurd hr' (hr declaration)
    · rfl

/-- The search by way of a supertype fails if the supertype refers to no class, or to one that
is on the chain, or if the search goes on from the class in vain. -/
theorem findThrough_eq_none_iff {chain : List Link} {reference : TypeRef} :
    ctx.findThrough root chain reference = none ↔
      ∀ declaration, ctx.index.resolve reference.name (some (Link.scopeOf root chain)) =
        .ofClass declaration → declaration.qualifiedName ∉ Link.names chain →
          ctx.findValidator root (⟨reference, declaration⟩ :: chain) = none := by
  rw [findThrough]
  split
  · rename_i declaration hr
    constructor
    · intro h declaration' hr' hnew
      obtain rfl : declaration = declaration' := by
        rw [hr] at hr'
        exact Referent.ofClass.inj hr'
      rwa [if_neg hnew] at h
    · intro h
      by_cases hnew : declaration.qualifiedName ∈ Link.names chain
      · rw [if_pos hnew]
      · rw [if_neg hnew]
        exact h declaration hr hnew
  · rename_i hr
    exact ⟨fun _ declaration hr' => absurd hr' (hr declaration), fun _ => rfl⟩

theorem findThrough_eq_some_iff {chain : List Link} {reference : TypeRef}
    {found : List Link × TypeRef} :
    ctx.findThrough root chain reference = some found ↔
      ∃ declaration, ctx.index.resolve reference.name (some (Link.scopeOf root chain)) =
        .ofClass declaration ∧ declaration.qualifiedName ∉ Link.names chain ∧
          ctx.findValidator root (⟨reference, declaration⟩ :: chain) = some found := by
  rw [findThrough]
  split
  · rename_i declaration hr
    constructor
    · intro h
      by_cases hnew : declaration.qualifiedName ∈ Link.names chain
      · rw [if_pos hnew] at h
        cases h
      · rw [if_neg hnew] at h
        exact ⟨declaration, hr, hnew, h⟩
    · rintro ⟨declaration', hr', hnew, h⟩
      obtain rfl : declaration = declaration' := by
        rw [hr] at hr'
        exact Referent.ofClass.inj hr'
      rwa [if_neg hnew]
  · rename_i hr
    constructor
    · intro h
      cases h
    · rintro ⟨declaration, hr', -⟩
      exact absurd hr' (hr declaration)

/-- The search fails if and only if no links lead to the validator interface. -/
theorem findValidator_eq_none_iff (chain : List Link) :
    ctx.findValidator root chain = none ↔
      ∀ links validator,
        ¬ ctx.Leads (Link.scopeOf root chain) (Link.names chain) links validator := by
  induction chain using findValidator.induct ctx root with
  | case1 chain scope validator hlisted =>
    rw [findValidator_of_listed hlisted]
    exact ⟨nofun, fun h => absurd (.listed hlisted) (h [] validator)⟩
  | case2 chain scope hlisted ih =>
    -- no supertype of the scope leads on, and `ih` is about the classes that they refer to
    rw [findValidator_of_not_listed hlisted, List.findSome?_eq_none_iff]
    constructor
    · rintro h links validator (hlisted' | ⟨hmem, hresolve, hnew, hleads⟩)
      · rw [hlisted] at hlisted'
        cases hlisted'
      · rename_i reference declaration links
        have hnone := findThrough_eq_none_iff.1 (h reference hmem) declaration hresolve hnew
        exact (ih reference declaration hresolve hnew).1 hnone links validator hleads
    · intro h reference hmem
      refine findThrough_eq_none_iff.2 fun declaration hresolve hnew => ?_
      refine (ih reference declaration hresolve hnew).2 fun links validator hleads => ?_
      exact h _ validator (.inherited hmem hresolve hnew hleads)

theorem findThrough_eq_none_iff_leadsNowhere {chain : List Link} {reference : TypeRef} :
    ctx.findThrough root chain reference = none ↔
      ctx.LeadsNowhere (Link.scopeOf root chain) (Link.names chain) reference := by
  rw [findThrough_eq_none_iff]
  refine forall_congr' fun declaration => ?_
  refine forall_congr' fun _ => forall_congr' fun _ => ?_
  exact findValidator_eq_none_iff (⟨reference, declaration⟩ :: chain)

/-- What the search finds is the first chain: the links that it has put on the stack, above
those that were there. -/
theorem leadsFirst_of_findValidator {chain found : List Link} {validator : TypeRef}
    (h : ctx.findValidator root chain = some (found, validator)) :
    ∃ links, found = links.reverse ++ chain ∧
      ctx.LeadsFirst (Link.scopeOf root chain) (Link.names chain) links validator := by
  induction chain using findValidator.induct ctx root with
  | case1 chain scope listed hlisted =>
    rw [findValidator_of_listed hlisted] at h
    cases h
    exact ⟨[], rfl, .listed hlisted⟩
  | case2 chain scope hlisted ih =>
    -- the search has failed for all supertypes before the one that it went on with
    rw [findValidator_of_not_listed hlisted, List.findSome?_eq_some_iff] at h
    obtain ⟨earlier, reference, later, hsuper, hfound, hearlier⟩ := h
    obtain ⟨declaration, hresolve, hnew, hfound⟩ := findThrough_eq_some_iff.1 hfound
    obtain ⟨links, rfl, hfirst⟩ := ih reference declaration hresolve hnew hfound
    refine ⟨⟨reference, declaration⟩ :: links, by simp, ?_⟩
    refine .inherited hlisted hsuper (fun r hr => ?_) hresolve hnew hfirst
    exact findThrough_eq_none_iff_leadsNowhere.1 (hearlier r hr)

theorem findValidator_of_leadsFirst {scope : Scope} {entered : List String} {links : List Link}
    {validator : TypeRef} (h : ctx.LeadsFirst scope entered links validator) :
    ∀ chain : List Link, Link.scopeOf root chain = scope → Link.names chain = entered →
      ctx.findValidator root chain = some (links.reverse ++ chain, validator) := by
  induction h with
  | listed hlisted =>
    rintro chain rfl rfl
    exact findValidator_of_listed hlisted
  | @inherited scope entered reference validator declaration links earlier later hlisted hsuper
      hearlier hresolve hnew _ ih =>
    rintro chain rfl rfl
    rw [findValidator_of_not_listed hlisted, List.findSome?_eq_some_iff]
    refine ⟨earlier, reference, later, hsuper, ?_, fun r hr => ?_⟩
    · refine findThrough_eq_some_iff.2 ⟨declaration, hresolve, hnew, ?_⟩
      rw [ih (⟨reference, declaration⟩ :: chain) rfl rfl]
      simp
    · exact findThrough_eq_none_iff_leadsNowhere.2 (hearlier r hr)

/-- **The search finds the first chain.**  From the companion on, it gives the links of the
first chain that leads to the validator interface, the last one on top. -/
theorem findValidator_eq_some_iff {found : List Link} {validator : TypeRef} :
    ctx.findValidator root [] = some (found, validator) ↔
      ∃ links, found = links.reverse ∧ ctx.LeadsFirst root [] links validator := by
  constructor
  · intro h
    obtain ⟨links, rfl, hfirst⟩ := leadsFirst_of_findValidator h
    exact ⟨links, List.append_nil _, hfirst⟩
  · rintro ⟨links, rfl, hfirst⟩
    rw [findValidator_of_leadsFirst hfirst [] rfl rfl, List.append_nil]

end Context

end ModelForge
