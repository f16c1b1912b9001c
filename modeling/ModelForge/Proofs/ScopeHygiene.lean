/-
What the type parameters of a scope capture.

In a scope, a type parameter comes before a declaration of the same name.  A type that is written
in a scope is classified there, and what the aliases in it stand for is classified in the same
scope, although it is written elsewhere:

* `DeclarationIndex.Captures` — a declared name is a type parameter of the scope;
* `DeclarationIndex.Reaches` — the references that are looked up in a type, or in what the aliases
  in it stand for;
* `Context.classify_eq_of_not_captures` — if none of their names is captured, the scope does not
  matter, in the kind and in what is left in the cache;
* `DeclarationIndex.Brings` — a name that an alias brings into a type, which does not mention it.

The main statement is `Context.classify_scope_eq`: what a type mentions and what is brought into it
are all the names that a scope can capture.  What is brought in is captured as well:
`Context.captured_in_target` is a type without type parameters of its scope, for which the scope
makes a difference.
-/
import ModelForge.Proofs.FailureType
import ModelForge.Proofs.MentionedNames

namespace ModelForge

/-! ### Captured names -/

namespace DeclarationIndex

variable {idx : DeclarationIndex} {s : Scope} {name : String}

/-- Something is declared under the name, which in the scope is a type parameter instead. -/
structure Captures (idx : DeclarationIndex) (s : Scope) (name : String) : Prop where
  parameter : name ∈ s.typeParameters
  declared : idx.get? name ≠ none

theorem mem_of_resolve_typeParameter {i : Nat}
    (h : idx.resolve name (some s) = .typeParameter i) : name ∈ s.typeParameters := by
  by_contra hnot
  have hp : s.parameterIndex? name = none := List.idxOf?_eq_none_iff.2 hnot
  simp only [resolve, Option.bind_some, hp] at h
  split at h <;> cases h

/-- A name that is not captured means the same inside and outside, or it is a type parameter
inside and nothing outside. -/
theorem resolve_of_not_captures (h : ¬ idx.Captures s name) :
    idx.resolve name none = idx.resolve name (some s) ∨
      ((∃ i, idx.resolve name (some s) = .typeParameter i) ∧ idx.resolve name none = .external) := by
  by_cases hp : ∃ i, idx.resolve name (some s) = .typeParameter i
  · refine .inr ⟨hp, ?_⟩
    obtain ⟨i, hi⟩ := hp
    have hnone : idx.get? name = none := by
      by_contra hdeclared
      exact h ⟨mem_of_resolve_typeParameter hi, hdeclared⟩
    simp only [resolve, Option.bind_none, hnone]
  · exact .inl (@Context.resolve_of_not_parameter ⟨idx, default⟩ name s (not_exists.1 hp))

/-! ### References that are looked up -/

/-- The second reference is looked up when the first is classified outside of all classes: it is an
argument in it, at any depth, or it is met in what an alias stands for. -/
inductive Reaches (idx : DeclarationIndex) : TypeRef → TypeRef → Prop
  | self {t : TypeRef} : Reaches idx t t
  | argument {name : String} {arguments : List TypeArgument} {nullable : Bool}
    {variance : Variance} {t r : TypeRef} (ht : .type variance t ∈ arguments)
    (h : Reaches idx t r) : Reaches idx (.mk name arguments nullable) r
  | expand {t r : TypeRef} {a : AliasDecl} (hr : idx.resolve t.name none = .ofAlias a)
    (h : Reaches idx (a.expand t) r) : Reaches idx t r

theorem Reaches.trans {t r q : TypeRef} (h : idx.Reaches t r) (h' : idx.Reaches r q) :
    idx.Reaches t q := by
  induction h with
  | self => exact h'
  | argument ht _ ih => exact .argument ht (ih h')
  | expand hr _ ih => exact .expand hr (ih h')

/-- An alias that is met in a type stands for something that mentions the name, and the reference to
the alias does not mention it. -/
def Brings (idx : DeclarationIndex) (t : TypeRef) (name : String) : Prop :=
  ∃ r a, idx.Reaches t r ∧ idx.resolve r.name none = .ofAlias a ∧
    name ∈ (a.expand r).mentions ∧ name ∉ r.mentions

/-- What is looked up in a type is mentioned by the type or brought into it. -/
theorem Reaches.mentioned_or_brought {t r : TypeRef} (h : idx.Reaches t r) :
    ∀ n ∈ r.mentions, n ∈ t.mentions ∨ idx.Brings t n := by
  induction h with
  | self => exact fun n hn => .inl hn
  | argument ht _ ih =>
    intro n hn
    rcases ih n hn with hmem | ⟨q, a, hq, hrest⟩
    · exact .inl (List.mem_cons_of_mem _ (TypeRef.mentionsOfArgument_subset ht hmem))
    · exact .inr ⟨q, a, .argument ht hq, hrest⟩
  | @expand t r a hr _ ih =>
    intro n hn
    rcases ih n hn with hmem | ⟨q, b, hq, hrest⟩
    · by_cases hwritten : n ∈ t.mentions
      · exact .inl hwritten
      · exact .inr ⟨t, a, .self, hr, hmem, hwritten⟩
    · exact .inr ⟨q, b, .expand hr hq, hrest⟩

end DeclarationIndex

/-! ### Classification without captures -/

namespace Context

open DeclarationIndex

variable {ctx : Context} {s : Scope}

section

variable {expand expand' : AliasDecl → TypeRef → Resolution PropertyKind}

mutual

/-- The scope does not matter if no name that is looked up is captured, and if it does not matter
for what the aliases that are met stand for. -/
theorem classifyWith_eq_of_not_captures : ∀ t : TypeRef,
    (∀ r, ctx.index.Reaches t r → ¬ ctx.index.Captures s r.name) →
      (∀ r a, ctx.index.Reaches t r → ctx.index.resolve r.name none = .ofAlias a →
        expand a r = expand' a r) →
        ctx.classifyWith expand (some s) t = ctx.classifyWith expand' none t
  | .mk name arguments nullable, hfree, hexpand => by
    have harguments := classifyArguments_eq_of_not_captures arguments
      (fun v t ht r hr => hfree r (.argument ht hr))
      (fun v t ht r a hr => hexpand r a (.argument ht hr))
    rw [classifyWith, classifyWith, harguments]
    rcases resolve_of_not_captures (hfree _ .self) with hsame | ⟨⟨i, hi⟩, hexternal⟩
    · rw [TypeRef.name_mk] at hsame
      rw [← hsame]
      cases hr : ctx.index.resolve name none with
      | typeParameter i => rfl
      | external => rfl
      | ofClass c => rfl
      | ofAlias a =>
        dsimp only
        rw [hexpand _ a .self hr]
    · -- a type parameter is taken for what it is outside, a name that is not declared
      rw [TypeRef.name_mk] at hi hexternal
      rw [hi, hexternal]

theorem classifyArgument_eq_of_not_captures : ∀ a : TypeArgument,
    (∀ v t, a = .type v t → ∀ r, ctx.index.Reaches t r → ¬ ctx.index.Captures s r.name) →
      (∀ v t, a = .type v t → ∀ r a, ctx.index.Reaches t r →
        ctx.index.resolve r.name none = .ofAlias a → expand a r = expand' a r) →
        ctx.classifyArgument expand (some s) a = ctx.classifyArgument expand' none a
  | .star, _, _ => rfl
  | .type v t, hfree, hexpand => by
    rw [classifyArgument, classifyArgument,
      classifyWith_eq_of_not_captures t (hfree v t rfl) (hexpand v t rfl)]

theorem classifyArguments_eq_of_not_captures : ∀ as : List TypeArgument,
    (∀ v t, .type v t ∈ as → ∀ r, ctx.index.Reaches t r → ¬ ctx.index.Captures s r.name) →
      (∀ v t, .type v t ∈ as → ∀ r a, ctx.index.Reaches t r →
        ctx.index.resolve r.name none = .ofAlias a → expand a r = expand' a r) →
        ctx.classifyArguments expand (some s) as = ctx.classifyArguments expand' none as
  | [], _, _ => rfl
  | a :: as, hfree, hexpand => by
    have hfirst := classifyArgument_eq_of_not_captures a
      (fun v t ht => hfree v t (ht ▸ List.mem_cons_self))
      (fun v t ht => hexpand v t (ht ▸ List.mem_cons_self))
    have hrest := classifyArguments_eq_of_not_captures as
      (fun v t ht => hfree v t (List.mem_cons_of_mem _ ht))
      (fun v t ht => hexpand v t (List.mem_cons_of_mem _ ht))
    rw [classifyArguments, classifyArguments, hfirst, hrest]

end

end

theorem classifyAt_eq_of_not_captures (depth : Nat) : ∀ {t : TypeRef},
    (∀ r, ctx.index.Reaches t r → ¬ ctx.index.Captures s r.name) →
      ctx.classifyAt (some s) depth t = ctx.classifyAt none depth t := by
  induction depth with
  | zero =>
    intro t hfree
    exact classifyWith_eq_of_not_captures t hfree fun _ _ _ _ => rfl
  | succ depth ih =>
    intro t hfree
    refine classifyWith_eq_of_not_captures t hfree fun r a hr halias => ?_
    -- what is met behind the alias is met in the type
    exact ih fun q hq => hfree q (hr.trans (.expand halias hq))

/-- If no name that is looked up is captured, classification in the scope is the same computation
as outside of all classes. -/
theorem classify_eq_of_not_captures {t : TypeRef}
    (h : ∀ r, ctx.index.Reaches t r → ¬ ctx.index.Captures s r.name) :
    ctx.classify (some s) t = ctx.classify none t :=
  classifyAt_eq_of_not_captures maxAliasDepth h

/-- **Scopes and what is written in them.**  If no name in a type is a type parameter of the scope,
and no alias brings a name into it that the scope captures, the type is classified in the scope as
outside of all classes: with every cache to the same kind or the same problem, and with the same
cache left. -/
theorem classify_scope_eq {t : TypeRef} (hwritten : ∀ n ∈ t.mentions, n ∉ s.typeParameters)
    (hbrought : ∀ n, ctx.index.Brings t n → ¬ ctx.index.Captures s n) :
    ctx.classify (some s) t = ctx.classify none t := by
  refine classify_eq_of_not_captures fun r hr hcaptured => ?_
  rcases hr.mentioned_or_brought r.name r.name_mem_mentions with hmem | hbrings
  · exact hwritten _ hmem hcaptured.parameter
  · exact hbrought _ hbrings hcaptured

end Context

/-! ### A home

`Address` is a template without a package, and `Home` stands for it.  The scope of `Crate` captures
`Courier`, which `Home` does not bring in, and the scope of `Courier` captures `Address`. -/

namespace Sample

def address : ClassDecl :=
  { bare with
    package := "", name := "Address",
    annotations := [.mk "modelsmith.annotation.ModelTemplate" [("name", .string "AddressModel")]] }

def home : AliasDecl :=
  ⟨"t", "Home", [], .named "Address", [], none⟩

def courier : ClassDecl :=
  { bare with package := "", name := "Courier", typeParameters := ["Address"] }

def crate : ClassDecl :=
  { bare with name := "Crate", typeParameters := ["Courier"] }

def homes : Context :=
  ⟨⟨[Declaration.ofClass address, .ofAlias home, .ofClass courier, .ofClass crate].map
    (⟨·, "t.json"⟩)⟩, {}⟩

/-- A reference that is met in `Home` is that to `Home` or that to `Address`. -/
theorem reaches_home {r : TypeRef} (h : homes.index.Reaches (.named "t.Home") r) :
    r = .named "t.Home" ∨ r = .named "Address" := by
  have htarget : ∀ q, homes.index.Reaches (.named "Address") q → q = .named "Address" := by
    intro q hq
    cases hq with
    | self => rfl
    | argument ht => cases ht
    | expand hr => exact Referent.noConfusion hr
  cases h with
  | self => exact .inl rfl
  | argument ht => cases ht
  | expand hr hrest =>
    cases hr
    exact .inr (htarget r hrest)

end Sample

theorem Context.classify_scope_eq_crate :
    (∀ n ∈ (TypeRef.named "t.Home").mentions, n ∉ Sample.crate.scope.typeParameters) ∧
    (∀ n, Sample.homes.index.Brings (.named "t.Home") n →
      ¬ Sample.homes.index.Captures Sample.crate.scope n) ∧
    Sample.homes.index.Captures Sample.crate.scope "Courier" ∧
    Sample.homes.classify (some Sample.crate.scope) (.named "t.Home") =
      Sample.homes.classify none (.named "t.Home") := by
  have hwritten : ∀ n ∈ (TypeRef.named "t.Home").mentions,
      n ∉ Sample.crate.scope.typeParameters := by
    decide +kernel
  have hbrought : ∀ n, Sample.homes.index.Brings (.named "t.Home") n →
      ¬ Sample.homes.index.Captures Sample.crate.scope n := by
    rintro n ⟨r, a, hr, halias, hmem, -⟩ hcaptured
    rcases Sample.reaches_home hr with rfl | rfl
    · -- the target mentions nothing but the address
      cases halias
      obtain rfl : n = "Address" := List.mem_singleton.1 hmem
      exact absurd hcaptured.parameter (by decide +kernel)
    · cases halias
  exact ⟨hwritten, hbrought, ⟨List.mem_cons_self, Option.some_ne_none _⟩,
    Context.classify_scope_eq hwritten hbrought⟩

/-- `Home` mentions no type parameter of the scope.  In it `Home` is standard, and outside it is a
nested model. -/
theorem Context.captured_in_target :
    (∀ n ∈ (TypeRef.named "t.Home").mentions, n ∉ Sample.courier.scope.typeParameters) ∧
    ((Sample.homes.classify (some Sample.courier.scope) (.named "t.Home")).result {}).map
      PropertyKind.isStandard = .ok true ∧
    ((Sample.homes.classify none (.named "t.Home")).result {}).map PropertyKind.isStandard =
      .ok false := by
  refine ⟨?_, ?_, ?_⟩ <;> decide +kernel

end ModelForge
