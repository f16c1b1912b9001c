/-
The names that declarations mention.

Whatever an analysis looks up, it has found written somewhere: as the name of a type, at any
depth of a reference, or as the class of an annotation.

* `TypeRef.mentions`, `Annotation.mentions` — the names in a reference and in a use of an
  annotation, with the class literals among its arguments;
* `ClassDecl.mentions`, `AliasDecl.mentions` — the names in a declaration.  What is nested in a
  class is declared on its own;
* `DeclarationIndex.mentions` — the names in all declarations.

Names are passed on and never made: `AliasDecl.mentions_expand` says so of the expansion of an
alias, `FieldDirective.mentions_decode` of a field that an annotation adds.
-/
import Mathlib.Data.List.Basic
import ModelForge.Analysis.Classification

namespace ModelForge

/-! ### References -/

namespace TypeRef

mutual

/-- The names in a reference, its own first. -/
def mentions : TypeRef → List String
  | mk name arguments _ => name :: mentionsOfList arguments

/-- The names in an argument. -/
def mentionsOfArgument : TypeArgument → List String
  | .star => []
  | .type _ ref => mentions ref

/-- The names in the arguments. -/
def mentionsOfList : List TypeArgument → List String
  | [] => []
  | a :: as => mentionsOfArgument a ++ mentionsOfList as

end

mutual

/-- The names in a reference that are applied to arguments. -/
def heads : TypeRef → List String
  | mk _ [] _ => []
  | mk name (a :: as) _ => name :: (headsOfArgument a ++ headsOfList as)

/-- The names in an argument that are applied to arguments. -/
def headsOfArgument : TypeArgument → List String
  | .star => []
  | .type _ ref => heads ref

/-- The names in the arguments that are applied to arguments. -/
def headsOfList : List TypeArgument → List String
  | [] => []
  | a :: as => headsOfArgument a ++ headsOfList as

end

theorem name_mem_mentions (t : TypeRef) : t.name ∈ t.mentions := by
  cases t
  exact List.mem_cons_self

theorem mentionsOfArgument_subset {a : TypeArgument} {as : List TypeArgument} (h : a ∈ as) :
    mentionsOfArgument a ⊆ mentionsOfList as := by
  induction as with
  | nil => cases h
  | cons b as ih =>
    rw [mentionsOfList]
    rcases List.mem_cons.1 h with rfl | h
    · exact List.subset_append_left _ _
    · exact List.subset_append_of_subset_right _ (ih h)

theorem mentionsOfList_subset (t : TypeRef) : mentionsOfList t.arguments ⊆ t.mentions := by
  cases t
  exact List.subset_cons_self _ _

/-- The argument passed at a position mentions nothing else. -/
theorem mentions_argument {t ref : TypeRef} {v : Variance} {i : Nat}
    (h : t.arguments[i]? = some (.type v ref)) : ref.mentions ⊆ t.mentions := by
  have hmem : TypeArgument.type v ref ∈ t.arguments := List.mem_of_getElem? h
  exact List.Subset.trans (mentionsOfArgument_subset hmem) t.mentionsOfList_subset

theorem mentions_argument? {t ref : TypeRef} {i : Nat} (h : t.argument? i = some ref) :
    ref.mentions ⊆ t.mentions := by
  unfold argument? at h
  split at h
  · rename_i v ref' harg
    cases h
    exact mentions_argument harg
  · cases h

@[simp] theorem mentions_orNullable (t : TypeRef) (b : Bool) :
    (t.orNullable b).mentions = t.mentions := by
  cases t
  rfl

/-! ### Substitution -/

/-- A bound name was paired with its type. -/
theorem Bindings.mem_of_ofList {pairs : List (String × TypeRef)} {name : String} {t : TypeRef}
    (h : ofList pairs name = some t) : (name, t) ∈ pairs := by
  induction pairs with
  | nil => cases h
  | cons pair pairs ih =>
    rw [ofList] at h
    cases hlater : ofList pairs name with
    | some bound =>
      rw [hlater] at h
      cases h
      exact List.mem_cons_of_mem _ (ih hlater)
    | none =>
      rw [hlater] at h
      dsimp only at h
      split at h
      · rename_i hname
        cases h
        cases hname
        exact List.mem_cons_self
      · cases h

section

variable {bindings : Bindings} {n : String}

/-- The name is in one of the bound types. -/
def Bindings.Mention (bindings : Bindings) (n : String) : Prop :=
  ∃ parameter bound, bindings parameter = some bound ∧ n ∈ bound.mentions

mutual

/-- A name in a reference after a substitution is in a bound type, or it was there before and is
not bound or applied to arguments. -/
theorem mentions_substitute : ∀ t : TypeRef, n ∈ (substitute bindings t).mentions →
    (n ∈ t.mentions ∧ (bindings n = none ∨ n ∈ t.heads)) ∨ bindings.Mention n
  -- only a name without arguments can be bound
  | mk name [] nullable, h => by
    rw [substitute] at h
    cases hbound : bindings name with
    | some bound =>
      rw [hbound] at h
      exact .inr ⟨name, bound, hbound, by simpa using h⟩
    | none =>
      rw [hbound] at h
      obtain rfl : n = name := by simpa [mentions, mentionsOfList] using h
      exact .inl ⟨h, .inl hbound⟩
  | mk name (a :: as) nullable, h => by
    rw [substitute, mentions] at h
    rcases List.mem_cons.1 h with rfl | h
    · exact .inl ⟨name_mem_mentions _, .inr (by rw [heads]; exact List.mem_cons_self)⟩
    · refine (mentions_substituteList (a :: as) h).imp_left fun ⟨hmem, hfree⟩ => ?_
      refine ⟨List.mem_cons_of_mem _ hmem, hfree.imp_right fun hhead => ?_⟩
      rw [heads]
      exact List.mem_cons_of_mem _ hhead

theorem mentions_substituteArgument : ∀ a : TypeArgument,
    n ∈ mentionsOfArgument (substituteArgument bindings a) →
      (n ∈ mentionsOfArgument a ∧ (bindings n = none ∨ n ∈ headsOfArgument a)) ∨
        bindings.Mention n
  | .star, h => by
    rw [substituteArgument] at h
    cases h
  | .type _ ref, h => by
    rw [substituteArgument] at h
    exact mentions_substitute ref h

theorem mentions_substituteList : ∀ as : List TypeArgument,
    n ∈ mentionsOfList (substituteList bindings as) →
      (n ∈ mentionsOfList as ∧ (bindings n = none ∨ n ∈ headsOfList as)) ∨ bindings.Mention n
  | [], h => by
    rw [substituteList] at h
    cases h
  | a :: as, h => by
    rw [substituteList, mentionsOfList] at h
    rw [mentionsOfList, headsOfList]
    rcases List.mem_append.1 h with h | h
    · exact (mentions_substituteArgument a h).imp_left fun ⟨hmem, hfree⟩ =>
        ⟨List.mem_append_left _ hmem, hfree.imp_right (List.mem_append_left _)⟩
    · exact (mentions_substituteList as h).imp_left fun ⟨hmem, hfree⟩ =>
        ⟨List.mem_append_right _ hmem, hfree.imp_right (List.mem_append_right _)⟩

end

end

end TypeRef

/-! ### Annotations -/

mutual

/-- The names in a use of an annotation, that of its class first. -/
def Annotation.mentions : Annotation → List String
  | .mk type arguments => type :: AnnotationValue.mentionsOfArguments arguments

/-- The names in an argument's value. -/
def AnnotationValue.mentions : AnnotationValue → List String
  | .bool _ | .integer _ | .string _ => []
  | .classLiteral ref => ref.mentions
  | .nested a => a.mentions
  | .array items => AnnotationValue.mentionsOfItems items

/-- The names in the items of an array. -/
def AnnotationValue.mentionsOfItems : List AnnotationValue → List String
  | [] => []
  | value :: values => value.mentions ++ AnnotationValue.mentionsOfItems values

/-- The names in the arguments of an annotation. -/
def AnnotationValue.mentionsOfArguments : List (String × AnnotationValue) → List String
  | [] => []
  | (_, value) :: arguments => value.mentions ++ AnnotationValue.mentionsOfArguments arguments

end

namespace Annotation

theorem type_mem_mentions (a : Annotation) : a.type ∈ a.mentions := by
  cases a
  exact List.mem_cons_self

theorem mentions_of_lookup {name : String} {value : AnnotationValue}
    {arguments : List (String × AnnotationValue)} (h : arguments.lookup name = some value) :
    value.mentions ⊆ AnnotationValue.mentionsOfArguments arguments := by
  induction arguments with
  | nil => cases h
  | cons argument arguments ih =>
    obtain ⟨other, first⟩ := argument
    rw [AnnotationValue.mentionsOfArguments]
    rw [List.lookup_cons] at h
    split at h
    · cases h
      exact List.subset_append_left _ _
    · exact List.subset_append_of_subset_right _ (ih h)

/-- A class literal that is passed to an annotation is mentioned by it. -/
theorem mentions_typeArgument {a : Annotation} {name : String} {ref : TypeRef}
    (h : a.typeArgument name = .ok ref) : ref.mentions ⊆ a.mentions := by
  unfold typeArgument at h
  split at h
  · rename_i ref' hargument
    cases h
    obtain ⟨type, arguments⟩ := a
    exact List.subset_cons_of_subset _ (mentions_of_lookup hargument)
  · cases h

end Annotation

/-- The type of a field that an annotation adds is mentioned by the annotation. -/
theorem FieldDirective.mentions_decode {a : Annotation} {f : FieldDirective}
    (h : FieldDirective.decode a = .ok f) : f.type.mentions ⊆ a.mentions := by
  unfold FieldDirective.decode at h
  cases hname : a.identifier "name" with
  | error p =>
    rw [hname] at h
    cases h
  | ok name =>
    rw [hname] at h
    cases htype : a.typeArgument "type" with
    | error p =>
      rw [htype] at h
      cases h
    | ok type =>
      rw [htype] at h
      cases hflag : a.flag "ignore" true with
      | error p =>
        rw [hflag] at h
        cases h
      | ok flag =>
        rw [hflag] at h
        cases h
        exact Annotation.mentions_typeArgument htype

/-! ### Declarations -/

/-- The names in a property. -/
def PropertyDecl.mentions (p : PropertyDecl) : List String :=
  p.type.mentions ++ p.annotations.flatMap Annotation.mentions

/-- The names in a companion object. -/
def CompanionDecl.mentions (k : CompanionDecl) : List String :=
  k.superTypes.flatMap TypeRef.mentions

/-- The names in a class, without those in what is nested in it. -/
def ClassDecl.mentions (c : ClassDecl) : List String :=
  c.superTypes.flatMap TypeRef.mentions ++ c.annotations.flatMap Annotation.mentions ++
    c.properties.flatMap PropertyDecl.mentions ++ c.companion.elim [] CompanionDecl.mentions

/-- The names in an alias. -/
def AliasDecl.mentions (a : AliasDecl) : List String :=
  a.target.mentions ++ a.annotations.flatMap Annotation.mentions

/-- The names in a declaration. -/
def Declaration.mentions : Declaration → List String
  | ofClass c => c.mentions
  | ofAlias a => a.mentions

/-- The names in all declarations of the index. -/
def DeclarationIndex.mentions (idx : DeclarationIndex) : List String :=
  idx.declarations.flatMap Declaration.mentions

namespace ClassDecl

variable {c : ClassDecl}

theorem mentions_superType {t : TypeRef} (h : t ∈ c.superTypes) : t.mentions ⊆ c.mentions := by
  intro n hn
  simp only [mentions, List.mem_append, List.mem_flatMap]
  exact .inl (.inl (.inl ⟨t, h, hn⟩))

theorem mentions_annotation {a : Annotation} (h : a ∈ c.annotations) :
    a.mentions ⊆ c.mentions := by
  intro n hn
  simp only [mentions, List.mem_append, List.mem_flatMap]
  exact .inl (.inl (.inr ⟨a, h, hn⟩))

theorem mentions_property {p : PropertyDecl} (h : p ∈ c.properties) :
    p.type.mentions ⊆ c.mentions := by
  intro n hn
  simp only [mentions, List.mem_append, List.mem_flatMap]
  exact .inl (.inr ⟨p, h, List.mem_append_left _ hn⟩)

theorem mentions_companion {k : Scope} {t : TypeRef} (hk : c.companionScope? = some k)
    (ht : t ∈ k.superTypes) : t.mentions ⊆ c.mentions := by
  unfold companionScope? at hk
  obtain ⟨companion, hcompanion, rfl⟩ := Option.map_eq_some_iff.1 hk
  intro n hn
  simp only [mentions, List.mem_append, hcompanion]
  exact .inr (List.mem_flatMap.2 ⟨t, ht, hn⟩)

end ClassDecl

/-- What an index mentions in one of its declarations it mentions. -/
theorem DeclarationIndex.mentions_get? {idx : DeclarationIndex} {name : String} {d : Declaration}
    (h : idx.get? name = some d) : d.mentions ⊆ idx.mentions := by
  unfold get? entry? at h
  obtain ⟨e, he, rfl⟩ := Option.map_eq_some_iff.1 h
  have hmem : e.declaration ∈ idx.declarations :=
    List.mem_map_of_mem (List.mem_of_find?_eq_some he)
  exact fun n hn => List.mem_flatMap.2 ⟨e.declaration, hmem, hn⟩

/-- What a parameter of an alias is bound to has been passed as an argument. -/
theorem AliasDecl.argument?_of_bindings {a : AliasDecl} {reference bound : TypeRef} {name : String}
    (h : a.bindings reference name = some bound) : ∃ i, reference.argument? i = some bound := by
  obtain ⟨⟨parameter, i⟩, -, hpair⟩ := List.mem_filterMap.1 (TypeRef.Bindings.mem_of_ofList h)
  obtain ⟨argument, hargument, heq⟩ := Option.map_eq_some_iff.1 hpair
  cases heq
  exact ⟨i, hargument⟩

/-- What a reference to an alias stands for mentions nothing but what the alias and the
reference mention. -/
theorem AliasDecl.mentions_expand {a : AliasDecl} {reference : TypeRef} {n : String}
    (h : n ∈ (a.expand reference).mentions) : n ∈ a.mentions ∨ n ∈ reference.mentions := by
  rw [expand, TypeRef.mentions_orNullable] at h
  rcases TypeRef.mentions_substitute a.target h with ⟨htarget, -⟩ | ⟨parameter, bound, hbound, hn⟩
  · exact .inl (List.mem_append_left _ htarget)
  · obtain ⟨i, hi⟩ := argument?_of_bindings hbound
    exact .inr (TypeRef.mentions_argument? hi hn)

end ModelForge
