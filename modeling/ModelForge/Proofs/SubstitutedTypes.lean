/-
Types that a substitution makes.

A substitution puts types where type parameters stood, also behind the keywords `in` and `out`.
There the reader looks ahead: it takes a keyword for one only in front of a letter, a digit or an
underscore.  A name may start with a dollar sign as well, and so may the type that a parameter
stands for:

* `TypeRef.afterKeywords` — the references that stand behind a keyword;
* `startsType_iff` — a name that can be read starts as the reader expects, or with a dollar sign;
* `startsType_substitute_iff` — how a reference starts once its parameters have been replaced;
* `wellFormed_substitute_iff` — what comes out can be written if and only if no such type is put
  behind a keyword.

The main statement is `parse_display_substitute_iff`; `parse_substituted_ne` is a type that cannot
be read again.
-/
import ModelForge.Proofs.AnnotationRoundTrip
import ModelForge.Proofs.ReferenceEncodings

namespace ModelForge

namespace TypeRef

/-! ### Behind a keyword -/

mutual

/-- The references that stand behind a keyword, at any depth. -/
def afterKeywords : TypeRef → List TypeRef
  | mk _ arguments _ => afterKeywordsOfList arguments

/-- The references of an argument that stand behind a keyword. -/
def afterKeywordsOfArgument : TypeArgument → List TypeRef
  | .star => []
  | .type .invariant ref => afterKeywords ref
  | .type _ ref => ref :: afterKeywords ref

/-- The references of the arguments that stand behind a keyword. -/
def afterKeywordsOfList : List TypeArgument → List TypeRef
  | [] => []
  | a :: as => afterKeywordsOfArgument a ++ afterKeywordsOfList as

end

theorem afterKeywordsOfArgument_of_ne {variance : Variance} (h : variance ≠ .invariant)
    (ref : TypeRef) :
    afterKeywordsOfArgument (.type variance ref) = ref :: ref.afterKeywords := by
  cases variance with
  | invariant => exact absurd rfl h
  | contravariant => rfl
  | covariant => rfl

/-- The reference is no parameter that stands for a type whose name starts with a dollar sign. -/
def KeepsStart (bindings : Bindings) (ref : TypeRef) : Prop :=
  ref.arguments = [] → ∀ bound, bindings ref.name = some bound →
    bound.name.toList.head? ≠ some '$'

/-! ### How a reference starts -/

/-- A name that can be read starts with a letter, a digit or an underscore, or else with a dollar
sign. -/
theorem startsType_iff {t : TypeRef} (h : t.WellFormed) :
    t.StartsType ↔ t.name.toList.head? ≠ some '$' := by
  have hname : IsName t.name := by
    obtain ⟨name, arguments, nullable⟩ := t
    exact h.1
  obtain ⟨w, ws, hws⟩ := exists_segmentsOf_eq_cons t.name.toList
  have hpart : IsPart w := hname w (by rw [hws]; exact List.mem_cons_self)
  obtain ⟨c, cs, rfl⟩ := List.exists_cons_of_ne_nil hpart.ne_nil
  have hhead : t.name.toList.head? = some c := by
    rw [(segmentsOf_eq_cons_iff.1 hws).1]
    rfl
  have hc : isNameChar c = true := hpart.isNameChar c List.mem_cons_self
  rw [StartsType, hhead, Option.any_some]
  constructor
  · intro hstart hdollar
    have hcontra : isTypeStart '$' = true := by
      rw [← Option.some.inj hdollar]
      exact hstart
    exact absurd hcontra (by decide)
  · intro hdollar
    have hne : (c == '$') = false := by
      simpa using hdollar
    simpa [isNameChar, isTypeStart, hne] using hc

variable {bindings : Bindings}

/-- Behind a keyword a parameter may be replaced by every type whose name starts as usual. -/
theorem startsType_substitute_iff
    (hbindings : ∀ name bound, bindings name = some bound → bound.WellFormed) :
    ∀ {ref : TypeRef}, ref.StartsType →
      ((ref.substitute bindings).StartsType ↔ ref.KeepsStart bindings)
  | mk name [] nullable, hstart => by
    rw [substitute, KeepsStart]
    cases hbound : bindings name with
    | none =>
      -- the name is no parameter and stays
      simp only [name_mk, hbound, reduceCtorEq, false_implies, implies_true, iff_true]
      exact hstart
    | some bound =>
      have hiff := startsType_iff (hbindings name bound hbound)
      simp only [name_mk, arguments_mk, hbound, Option.some.injEq, forall_eq', true_imp_iff]
      exact hiff
  | mk name (a :: as) nullable, hstart => by
    rw [substitute, KeepsStart]
    exact ⟨fun _ h => absurd h (List.cons_ne_nil a as), fun _ => hstart⟩

/-! ### What can be written -/

mutual

/-- What a substitution makes can be written if and only if it puts no type whose name starts with
a dollar sign behind a keyword. -/
theorem wellFormed_substitute_iff
    (hbindings : ∀ name bound, bindings name = some bound → bound.WellFormed) :
    ∀ t : TypeRef, t.WellFormed →
      ((t.substitute bindings).WellFormed ↔ ∀ ref ∈ t.afterKeywords, ref.KeepsStart bindings)
  | mk name [] nullable, h => by
    have hwell : ((mk name [] nullable).substitute bindings).WellFormed := by
      cases hbound : bindings name with
      | none => simpa [substitute, hbound] using h
      | some bound =>
        -- only the mark of nullability is added to the bound type
        obtain ⟨name', arguments, nullable'⟩ := bound
        have hwell : IsName name' ∧ WellFormedList arguments := hbindings name _ hbound
        simp only [substitute, hbound]
        exact hwell
    exact ⟨fun _ => nofun, fun _ => hwell⟩
  | mk name (a :: as) nullable, h => by
    have hlist := wellFormedList_substituteList_iff hbindings (a :: as) h.2
    rw [substitute, ← substituteList]
    exact ⟨fun hwell => hlist.1 hwell.2, fun hkeep => ⟨h.1, hlist.2 hkeep⟩⟩

theorem wellFormedArgument_substituteArgument_iff
    (hbindings : ∀ name bound, bindings name = some bound → bound.WellFormed) :
    ∀ a : TypeArgument, WellFormedArgument a →
      (WellFormedArgument (substituteArgument bindings a) ↔
        ∀ ref ∈ afterKeywordsOfArgument a, ref.KeepsStart bindings)
  | .star, _ => ⟨fun _ => nofun, fun _ => trivial⟩
  | .type variance ref, h => by
    have href := wellFormed_substitute_iff hbindings ref h.2
    rw [substituteArgument, WellFormedArgument, href]
    by_cases hv : variance = .invariant
    · subst hv
      exact and_iff_right (.inl rfl)
    · have hstart : ref.StartsType := h.1.resolve_left hv
      rw [afterKeywordsOfArgument_of_ne hv, List.forall_mem_cons,
        ← startsType_substitute_iff hbindings hstart]
      exact and_congr_left fun _ => or_iff_right hv

theorem wellFormedList_substituteList_iff
    (hbindings : ∀ name bound, bindings name = some bound → bound.WellFormed) :
    ∀ as : List TypeArgument, WellFormedList as →
      (WellFormedList (substituteList bindings as) ↔
        ∀ ref ∈ afterKeywordsOfList as, ref.KeepsStart bindings)
  | [], _ => ⟨fun _ => nofun, fun _ => trivial⟩
  | a :: as, h => by
    have ha := wellFormedArgument_substituteArgument_iff hbindings a h.1
    have has := wellFormedList_substituteList_iff hbindings as h.2
    rw [substituteList, WellFormedList, ha, has, afterKeywordsOfList, List.forall_mem_append]

end

/-- **Reading what a substitution makes.**  Let a type and all types that its parameters are
replaced by be such as can be read.  Then the displayed form of the result is read as the result
again if and only if no parameter behind a keyword is replaced by a type whose name starts with a
dollar sign. -/
theorem parse_display_substitute_iff {text : String} {t : TypeRef} {bindings : Bindings}
    (ht : parse text = .ok t)
    (hbindings : ∀ name bound, bindings name = some bound → ∃ text, parse text = .ok bound) :
    parse (t.substitute bindings).display = .ok (t.substitute bindings) ↔
      ∀ ref ∈ t.afterKeywords, ref.KeepsStart bindings := by
  have hwell : ∀ name bound, bindings name = some bound → bound.WellFormed := by
    intro name bound hbound
    obtain ⟨_, hparse⟩ := hbindings name bound hbound
    exact wellFormed_of_parse hparse
  rw [parse_display_iff]
  exact wellFormed_substitute_iff hwell t (wellFormed_of_parse ht)

/-! ### A type for money

A box for incoming values is applied to a type whose name starts with a dollar sign. -/

namespace Sample

/-- A box for incoming values. -/
def incoming : TypeRef :=
  .mk "Box" [.type .contravariant (.named "T")] false

def money : TypeRef :=
  .named "$Money"

/-- The parameter of the box stands for the type. -/
def standsFor (bound : TypeRef) : Bindings :=
  Bindings.ofList [("T", bound)]

theorem isName_of_all {name : String} (hne : name.toList ≠ [])
    (hall : name.toList.all isNameChar = true) : IsName name :=
  isName_of_isPart ⟨hne, List.all_eq_true.1 hall⟩

theorem wellFormed_named {name : String} (h : IsName name) : (named name).WellFormed :=
  ⟨h, trivial⟩

theorem wellFormed_incoming : incoming.WellFormed := by
  have hstart : (named "T").StartsType := by
    show "T".toList.head?.any isTypeStart = true
    decide
  have hparameter : (named "T").WellFormed :=
    wellFormed_named (isName_of_all (by decide) (by decide))
  exact ⟨isName_of_all (by decide) (by decide), ⟨.inr hstart, hparameter⟩, trivial⟩

theorem eq_of_standsFor {bound u : TypeRef} {name : String}
    (h : standsFor bound name = some u) : u = bound := by
  by_cases hname : "T" = name
  · simpa [standsFor, Bindings.ofList, hname, eq_comm] using h
  · simp [standsFor, Bindings.ofList, hname] at h

theorem afterKeywords_incoming : incoming.afterKeywords = [named "T"] := by
  rfl

end Sample

open ModelForge.TypeRef.Sample

theorem parse_display_substitute_iff_count :
    parse "Box<in T>" = .ok incoming ∧ parse "kotlin.Int?" = .ok (.mk "kotlin.Int" [] true) ∧
    (incoming.substitute (standsFor (.mk "kotlin.Int" [] true))).display = "Box<in kotlin.Int?>" ∧
    parse "Box<in kotlin.Int?>" =
      .ok (incoming.substitute (standsFor (.mk "kotlin.Int" [] true))) := by
  have hbox : incoming.display = "Box<in T>" := by rfl
  have hcount : (mk "kotlin.Int" [] true).display = "kotlin.Int?" := by rfl
  have hdisplay : (incoming.substitute (standsFor (.mk "kotlin.Int" [] true))).display =
      "Box<in kotlin.Int?>" := by rfl
  have hparse : parse "Box<in T>" = .ok incoming := hbox ▸ parse_display_iff.2 wellFormed_incoming
  have hbound : parse "kotlin.Int?" = .ok (.mk "kotlin.Int" [] true) := by
    rw [← hcount, parse_display_iff]
    refine ⟨?_, trivial⟩
    have hsegments : segmentsOf "kotlin.Int".toList = ["kotlin".toList, "Int".toList] := by rfl
    rw [IsName, hsegments]
    refine List.forall_mem_cons.2 ⟨⟨by decide, List.all_eq_true.1 (by decide)⟩, ?_⟩
    exact List.forall_mem_singleton.2 ⟨by decide, List.all_eq_true.1 (by decide)⟩
  have hbindings : ∀ name bound, standsFor (.mk "kotlin.Int" [] true) name = some bound →
      ∃ text, parse text = .ok bound :=
    fun name bound h => ⟨_, eq_of_standsFor h ▸ hbound⟩
  have hiff := parse_display_substitute_iff hparse hbindings
  rw [hdisplay] at hiff
  refine ⟨hparse, hbound, hdisplay, hiff.2 ?_⟩
  rw [afterKeywords_incoming, List.forall_mem_singleton]
  intro _ bound h
  rw [eq_of_standsFor h]
  decide

/-- The box and the type can be read, and the box of the type cannot be read again. -/
theorem parse_substituted_ne :
    parse "Box<in T>" = .ok incoming ∧ parse "$Money" = .ok money ∧
    (incoming.substitute (standsFor money)).display = "Box<in $Money>" ∧
    parse "Box<in $Money>" ≠ .ok (incoming.substitute (standsFor money)) := by
  have hbox : incoming.display = "Box<in T>" := by rfl
  have hmoney : money.display = "$Money" := by rfl
  have hdisplay : (incoming.substitute (standsFor money)).display = "Box<in $Money>" := by rfl
  have hname : IsName "$Money" := isName_of_all (by decide) (by decide)
  refine ⟨hbox ▸ parse_display_iff.2 wellFormed_incoming,
    hmoney ▸ parse_display_iff.2 (wellFormed_named hname), hdisplay, fun hparse => ?_⟩
  rw [← hdisplay, parse_display_iff] at hparse
  -- behind the keyword the name has to start as usual
  obtain ⟨-, ⟨hkeyword, -⟩, -⟩ := hparse
  have hstart : isTypeStart '$' = true := hkeyword.resolve_left nofun
  exact absurd hstart (by decide)

end TypeRef

end ModelForge
