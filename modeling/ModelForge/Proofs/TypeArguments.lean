/-
Names in types, and what is passed for type parameters.

* `TypeName.Shows`, `PropertyKind.Shows` — a name can be seen in a type, and in the types of a
  kind;
* `TypeRef.Writes` — a reference is written with a name, at any depth;
* `TypeRef.isSaturated` — every reference to an alias passes a type for each type parameter of
  the alias, so that all of them are bound (`AliasDecl.exists_bindings`).

What a saturated reference to an alias with a saturated target stands for is saturated again:
`AliasDecl.isSaturated_expand`.
-/
import ModelForge.Proofs.MentionedNames

namespace ModelForge

/-! ### Names in types -/

namespace TypeName

/-- The class is the one that a name is read as. -/
def IsNamed (t : TypeName) (name : String) : Prop :=
  t.package = (ofQualified name).package ∧ t.simpleNames = (ofQualified name).simpleNames

instance (t : TypeName) (name : String) : Decidable (t.IsNamed name) :=
  inferInstanceAs (Decidable (_ ∧ _))

mutual

/-- A name can be seen in a type: as its class, or in one of its arguments. -/
def Shows (x : String) : TypeName → Prop
  | mk package simpleNames arguments nullable =>
    (mk package simpleNames arguments nullable).IsNamed x ∨ AnyShows x arguments

/-- A name can be seen in an argument; in a star there is none. -/
def ArgumentShows (x : String) : Option TypeName → Prop
  | none => False
  | some t => Shows x t

/-- A name can be seen in one of the arguments. -/
def AnyShows (x : String) : List (Option TypeName) → Prop
  | [] => False
  | a :: as => ArgumentShows x a ∨ AnyShows x as

end

variable {x : String}

theorem shows_iff (t : TypeName) : t.Shows x ↔ t.IsNamed x ∨ AnyShows x t.arguments := by
  cases t
  rfl

theorem shows_withNullable (t : TypeName) (b : Bool) : (t.withNullable b).Shows x ↔ t.Shows x := by
  rw [shows_iff, shows_iff]
  rfl

theorem shows_withArguments (t : TypeName) (as : List (Option TypeName)) :
    (t.withArguments as).Shows x ↔ t.IsNamed x ∨ AnyShows x as :=
  shows_iff _

/-- In a type without arguments there is only the name of its class. -/
theorem shows_of_arguments_nil {t : TypeName} (h : t.arguments = []) : t.Shows x ↔ t.IsNamed x := by
  rw [shows_iff, h]
  exact or_iff_left id

end TypeName

/-- A name can be seen in one of the types of a validated value. -/
def ValidatedValue.Shows (x : String) (v : ValidatedValue) : Prop :=
  v.wrapper.Shows x ∨ v.value.Shows x ∨ v.failure.Shows x

namespace PropertyKind

mutual

/-- A name can be seen in one of the types of a kind. The names of nested models do not count. -/
def Shows (x : String) : PropertyKind → Prop
  | standard type arguments => type.Shows x ∨ AnyShows x arguments
  | value v | optionalValue v _ => v.Shows x
  | model _ | optionalModel _ _ | modelList _ _ | modelNonEmptyList _ _ => False

/-- A name can be seen in the kind of an argument. -/
def ArgumentShows (x : String) : Option PropertyKind → Prop
  | none => False
  | some kind => Shows x kind

/-- A name can be seen in the kind of one of the arguments. -/
def AnyShows (x : String) : List (Option PropertyKind) → Prop
  | [] => False
  | a :: as => ArgumentShows x a ∨ AnyShows x as

end

variable {x : String}

theorem shows_of_inContainer? {container : Container} {inner kind : PropertyKind} {nullable : Bool}
    (h : inContainer? container inner nullable = some kind) (hx : kind.Shows x) :
    inner.Shows x := by
  unfold inContainer? at h
  split at h
  all_goals cases h
  all_goals exact hx

/-- Without arguments a type is no container. -/
theorem ofType_nil (m : Markers) (type : TypeName) : ofType m type [] = standard type [] := by
  unfold ofType
  split
  · rename_i h
    cases h
  · rfl

theorem shows_ofType {m : Markers} {type : TypeName} {arguments : List (Option PropertyKind)}
    (h : (ofType m type arguments).Shows x) : type.Shows x ∨ AnyShows x arguments := by
  unfold ofType at h
  split at h
  · rename_i container inner _
    cases hkind : inContainer? container inner type.nullable with
    | none =>
      rw [hkind] at h
      exact h
    | some kind =>
      rw [hkind] at h
      exact .inr (.inl (shows_of_inContainer? hkind h))
  · exact h

end PropertyKind

/-! ### Names in references -/

/-- One of the names is read as the same class as `x`. -/
def IsAmong (x : String) (names : List String) : Prop :=
  ∃ name ∈ names, (TypeName.ofQualified name).IsNamed x

instance (x : String) (names : List String) : Decidable (IsAmong x names) :=
  inferInstanceAs (Decidable (∃ name ∈ names, _))

theorem IsAmong.mono {x : String} {names names' : List String} (h : IsAmong x names)
    (hsubset : names ⊆ names') : IsAmong x names' := by
  obtain ⟨name, hname, hx⟩ := h
  exact ⟨name, hsubset hname, hx⟩

namespace TypeRef

/-- The reference is written with a name, at any depth. -/
def Writes (t : TypeRef) (x : String) : Prop :=
  IsAmong x t.mentions

instance (t : TypeRef) (x : String) : Decidable (t.Writes x) :=
  inferInstanceAs (Decidable (IsAmong _ _))

mutual

/-- Every reference to an alias passes a type for each of the alias's type parameters. -/
def isSaturated (idx : DeclarationIndex) : TypeRef → Bool
  | mk name arguments nullable =>
    (match idx.get? name with
      | some (.ofAlias a) => (List.range a.typeParameters.length).all fun i =>
          ((mk name arguments nullable).argument? i).isSome
      | _ => true) && isSaturatedList idx arguments

/-- The argument passes types for all type parameters of aliases. -/
def isSaturatedArgument (idx : DeclarationIndex) : TypeArgument → Bool
  | .star => true
  | .type _ ref => isSaturated idx ref

/-- The arguments pass types for all type parameters of aliases. -/
def isSaturatedList (idx : DeclarationIndex) : List TypeArgument → Bool
  | [] => true
  | a :: as => isSaturatedArgument idx a && isSaturatedList idx as

end

variable {idx : DeclarationIndex} {bindings : Bindings}

theorem isSaturated_of_mem {t : TypeRef} {v : Variance} {as : List TypeArgument}
    (h : TypeArgument.type v t ∈ as) (has : isSaturatedList idx as = true) :
    t.isSaturated idx = true := by
  induction as with
  | nil => cases h
  | cons a as ih =>
    rw [isSaturatedList, Bool.and_eq_true] at has
    rcases List.mem_cons.1 h with rfl | h
    · exact has.1
    · exact ih h has.2

theorem isSaturated_argument? {t ref : TypeRef} {i : Nat} (h : t.isSaturated idx = true)
    (hi : t.argument? i = some ref) : ref.isSaturated idx = true := by
  obtain ⟨name, arguments, nullable⟩ := t
  rw [isSaturated, Bool.and_eq_true] at h
  unfold argument? at hi
  split at hi
  · rename_i v ref' harg
    cases hi
    exact isSaturated_of_mem (List.mem_of_getElem? harg) h.2
  · cases hi

/-- What is passed for a type parameter of the alias that a reference refers to. -/
theorem exists_argument? {name : String} {arguments : List TypeArgument} {nullable : Bool}
    {a : AliasDecl} {i : Nat} (h : (mk name arguments nullable).isSaturated idx = true)
    (ha : idx.get? name = some (.ofAlias a)) (hi : i < a.typeParameters.length) :
    ∃ bound, (mk name arguments nullable).argument? i = some bound := by
  rw [isSaturated, Bool.and_eq_true, ha] at h
  exact Option.isSome_iff_exists.1 (List.all_eq_true.1 h.1 i (List.mem_range.2 hi))

theorem isSaturated_orNullable (t : TypeRef) (b : Bool) :
    (t.orNullable b).isSaturated idx = t.isSaturated idx := by
  cases t
  rfl

/-- Substitution keeps the number of arguments and which of them are types. -/
theorem isSome_argument?_substituteList (as : List TypeArgument) (name : String) (b : Bool)
    (i : Nat) : ((mk name (substituteList bindings as) b).argument? i).isSome =
      ((mk name as b).argument? i).isSome := by
  unfold argument?
  dsimp only [arguments_mk]
  induction as generalizing i with
  | nil => rfl
  | cons a as ih =>
    rw [substituteList]
    cases i with
    | zero => cases a <;> rfl
    | succ i => exact ih i

mutual

/-- Substitution of saturated references keeps a reference saturated. -/
theorem isSaturated_substitute
    (hbindings : ∀ name bound, bindings name = some bound → bound.isSaturated idx = true) :
    ∀ t : TypeRef, t.isSaturated idx = true → (substitute bindings t).isSaturated idx = true
  | mk name [] nullable, h => by
    rw [substitute]
    cases hbound : bindings name with
    | some bound =>
      show (bound.orNullable nullable).isSaturated idx = true
      rw [isSaturated_orNullable]
      exact hbindings name bound hbound
    | none => exact h
  | mk name (a :: as) nullable, h => by
    rw [substitute, ← substituteList]
    rw [isSaturated, Bool.and_eq_true] at h ⊢
    refine ⟨?_, isSaturatedList_substitute hbindings (a :: as) h.2⟩
    simp only [isSome_argument?_substituteList]
    exact h.1

theorem isSaturatedArgument_substitute
    (hbindings : ∀ name bound, bindings name = some bound → bound.isSaturated idx = true) :
    ∀ a : TypeArgument, isSaturatedArgument idx a = true →
      isSaturatedArgument idx (substituteArgument bindings a) = true
  | .star, _ => rfl
  | .type _ ref, h => by
    rw [substituteArgument]
    exact isSaturated_substitute hbindings ref h

theorem isSaturatedList_substitute
    (hbindings : ∀ name bound, bindings name = some bound → bound.isSaturated idx = true) :
    ∀ as : List TypeArgument, isSaturatedList idx as = true →
      isSaturatedList idx (substituteList bindings as) = true
  | [], _ => rfl
  | a :: as, h => by
    rw [isSaturatedList, Bool.and_eq_true] at h
    rw [substituteList, isSaturatedList, Bool.and_eq_true]
    exact ⟨isSaturatedArgument_substitute hbindings a h.1,
      isSaturatedList_substitute hbindings as h.2⟩

end

/-- A name that is paired with a type is bound, if only to a later one. -/
theorem Bindings.exists_ofList {pairs : List (String × TypeRef)} {name : String}
    (h : name ∈ pairs.map (·.1)) : ∃ bound, ofList pairs name = some bound := by
  induction pairs with
  | nil => cases h
  | cons pair pairs ih =>
    rw [ofList]
    cases hlater : ofList pairs name with
    | some bound => exact ⟨bound, rfl⟩
    | none =>
      rcases List.mem_cons.1 h with h | h
      · exact ⟨pair.2, if_pos h.symm⟩
      · obtain ⟨bound, hbound⟩ := ih h
        rw [hlater] at hbound
        cases hbound

end TypeRef

namespace AliasDecl

variable {a : AliasDecl} {reference : TypeRef}

/-- In a saturated reference to an alias, all of its type parameters are bound. -/
theorem exists_bindings {idx : DeclarationIndex} {parameter : String}
    (ha : idx.get? reference.name = some (.ofAlias a)) (h : reference.isSaturated idx = true)
    (hparameter : parameter ∈ a.typeParameters) :
    ∃ bound, a.bindings reference parameter = some bound := by
  obtain ⟨i, hi, hget⟩ := List.mem_iff_getElem.1 hparameter
  obtain ⟨bound, hbound⟩ : ∃ bound, reference.argument? i = some bound := by
    cases reference
    exact TypeRef.exists_argument? h ha hi
  refine TypeRef.Bindings.exists_ofList (List.mem_map.2 ⟨(parameter, bound), ?_, rfl⟩)
  refine List.mem_filterMap.2 ⟨(parameter, i), List.mk_mem_zipIdx_iff_getElem?.2 ?_, ?_⟩
  · rw [List.getElem?_eq_getElem hi, hget]
  · show Option.map (parameter, ·) (reference.argument? i) = _
    rw [hbound]
    rfl

/-- What a saturated reference to an alias stands for is saturated. -/
theorem isSaturated_expand {idx : DeclarationIndex} (h : reference.isSaturated idx = true)
    (htarget : a.target.isSaturated idx = true) : (a.expand reference).isSaturated idx = true := by
  rw [expand, TypeRef.isSaturated_orNullable]
  refine TypeRef.isSaturated_substitute (fun name bound hbound => ?_) a.target htarget
  obtain ⟨i, hi⟩ := argument?_of_bindings hbound
  exact TypeRef.isSaturated_argument? h hi

end AliasDecl

end ModelForge
