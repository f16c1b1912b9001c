/-
What the names in a factory refer to.

A factory has its parameters in scope, after each local this local, and in a block the parameter of
the block.  A local is called like its property with a letter before it, and nothing keeps this
name apart from the names of the properties, or from that of another local:

* `Expr.uses` — the names that are used in an expression, with what each of them refers to;
* `resultName_eq_iff` — locals have one name if their properties merge in upper case;
* `Generation.ReadsAt` — the code that is written for a property reads its own parameter and its
  own local;
* `Generation.readsAt_iff` — this comes down to which names the locals have before and after it;
* `Generation.readsOwn_iff` — and so to the names of the properties and their order.

The main statement is `Context.scopes_of_modelAlone`; `Context.parameter_hidden` is a model with a
local that hides a parameter.
-/
import ModelForge.Proofs.PrevalidatedProperties
import ModelForge.Proofs.VariantNames

namespace ModelForge

/-! ### The names of locals -/

theorem toList_resultName (name : String) :
    (resultName name).toList = 'v' :: (capitalized name).toList :=
  String.toList_append

theorem length_le_capitalized (name : String) :
    name.toList.length ≤ (capitalized name).toList.length := by
  cases h : name.toList with
  | nil => exact Nat.zero_le _
  | cons c cs =>
    have hcapital := List.length_pos_iff.2 (Text.capital_ne_nil c)
    rw [capitalized_of_toList h, String.toList_ofList, List.length_append, List.length_cons]
    omega

/-- The local of a property is not called like the property. -/
theorem resultName_ne (name : String) : resultName name ≠ name := by
  intro h
  have hlength := congrArg (fun n => n.toList.length) h
  have hle := length_le_capitalized name
  rw [toList_resultName, List.length_cons] at hlength
  omega

theorem resultName_eq_iff {a b : String} :
    resultName a = resultName b ↔ a = b ∨ MergesWith a b ∨ MergesWith b a := by
  rw [← capitalized_eq_iff, ← String.toList_inj, toList_resultName, toList_resultName,
    List.cons_inj_right, String.toList_inj]

/-! ### Scopes -/

namespace Kotlin

/-- What a name is bound by: a parameter or a local of the function, by its place among them, or
the parameter of a block. -/
inductive Binder
  | parameter (place : Nat)
  | held (place : Nat)
  | block
deriving DecidableEq, Repr

/-- The names in scope with what they are bound by, the innermost first. -/
abbrev Binders := List (String × Binder)

/-- A name that is used, as what it is used. -/
inductive Use
  | parameter (name : String)
  | held (name : String)
  | it
deriving DecidableEq, Repr

/-- The uses in an expression, with what they refer to.  A block hides what is called like its
parameter. -/
def Expr.uses {C : Type} : Expr C → Binders → List (Use × Option Binder)
  | parameter name, s => [(.parameter name, s.lookup name)]
  | held name, s => [(.held name, s.lookup name)]
  | it, s => [(.it, s.lookup "it")]
  | null, _ => []
  | object _, _ => []
  | wrap _ e, s => e.uses s
  | right _ e, s => e.uses s
  | make _ _ e, s => e.uses s
  | letIt receiver block, s => receiver.uses s ++ block.uses (("it", .block) :: s)
  | map receiver _ name block, s => receiver.uses s ++ block.uses ((name.getD "it", .block) :: s)
  | fold receiver _ absent present, s =>
    receiver.uses s ++ absent.uses s ++ present.uses (("it", .block) :: s)
  | validate receiver _, s => receiver.uses s
  | flatMap receiver block, s => receiver.uses s ++ block.uses (("it", .block) :: s)
  | build receiver _, s => receiver.uses s
  | content receiver, s => receiver.uses s
  | orElse value fallback, s => value.uses s ++ fallback.uses s

namespace Binders

/-- Names that are bound one after the other, with their places. -/
def places (bind : Nat → Binder) (names : List String) : Binders :=
  names.zipIdx.map fun x => (x.1, bind x.2)

variable {bind : Nat → Binder} {names before after : List String} {name : String}
  {s inner : Binders}

theorem names_places : (places bind names).map Prod.fst = names := by
  rw [places, List.map_map]
  exact List.zipIdx_map_fst 0 names

/-- What a scope does not bind is found further outside. -/
theorem lookup_append_of_not_mem (h : name ∉ inner.map Prod.fst) :
    (inner ++ s).lookup name = s.lookup name := by
  have hnone : inner.lookup name = none := by
    rw [List.lookup_eq_none_iff]
    intro e he
    rw [bne_iff_ne]
    rintro rfl
    exact h (List.mem_map_of_mem he)
  rw [List.lookup_append, hnone, Option.none_or]

theorem exists_places_append_cons (bind : Nat → Binder) (before after : List String)
    (name : String) :
    ∃ later : Binders, later.map Prod.fst = after ∧
      places bind (before ++ name :: after) =
        places bind before ++ (name, bind before.length) :: later := by
  refine ⟨(after.zipIdx (before.length + 1)).map fun x => (x.1, bind x.2), ?_, ?_⟩
  · rw [List.map_map]
    exact List.zipIdx_map_fst _ after
  · rw [places, List.zipIdx_append, List.zipIdx_cons, Nat.zero_add, List.map_append, List.map_cons]
    rfl

/-- A list is split at the last place of one of its names. -/
theorem exists_last (h : name ∈ names) :
    ∃ before after, names = before ++ name :: after ∧ name ∉ after := by
  obtain ⟨after, before, hsplit, hlast⟩ := List.eq_append_cons_of_mem (List.mem_reverse.2 h)
  refine ⟨before.reverse, after.reverse, ?_, mt List.mem_reverse.1 hlast⟩
  rw [← List.reverse_reverse names, hsplit]
  simp

/-- Of names that stand side by side, the first one is found. -/
theorem lookup_places (h : name ∉ before) :
    (places bind (before ++ name :: after)).lookup name = some (bind before.length) := by
  obtain ⟨later, -, hplaces⟩ := exists_places_append_cons bind before after name
  rw [hplaces, lookup_append_of_not_mem (names_places.symm ▸ h), List.lookup_cons_self]

/-- Of names that stand one inside the other, the last one is found. -/
theorem lookup_places_reverse (h : name ∉ after) :
    ((places bind (before ++ name :: after)).reverse ++ s).lookup name =
      some (bind before.length) := by
  obtain ⟨later, hnames, hplaces⟩ := exists_places_append_cons bind before after name
  have hlater : name ∉ later.reverse.map Prod.fst := by
    rwa [List.map_reverse, List.mem_reverse, hnames]
  rw [hplaces, List.reverse_append, List.reverse_cons, List.append_assoc, List.append_assoc,
    lookup_append_of_not_mem hlater, List.singleton_append, List.lookup_cons_self]

end Binders

/-- The scope in a factory after a number of its locals: these locals, each inside of those before
it, in the function with its parameters. -/
def Factory.scope {C T : Type} (f : Factory C T) (held : Nat) : Binders :=
  (Binders.places .held ((f.locals.take held).map (·.name))).reverse ++
    Binders.places .parameter (f.parameters.map (·.name))

/-- What a use is written for, in code for the parameter at a place. -/
def Use.target (place : Nat) (held : Binder) : Use → Binder
  | .parameter _ => .parameter place
  | .held _ => held
  | .it => .block

/-- Everything that is used refers to what it is written for. -/
def Expr.Reads {C : Type} (e : Expr C) (s : Binders) (place : Nat) (held : Binder) : Prop :=
  ∀ u ∈ e.uses s, u.2 = some (u.1.target place held)

end Kotlin

open Kotlin

namespace Generation

/-! ### Properties with locals -/

/-- Whether the result of the property is held in a local. -/
def isHeld (p : Property) : Bool :=
  (validationExpr p.name p.kind).isSome

variable {mode : Mode} {p : Property} {properties before after : List Property}

theorem local?_of_isHeld (mode : Mode) (h : isHeld p = true) :
    ∃ e, validationExpr p.name p.kind = some e ∧
      (validation mode p).local? = some ⟨p.resultName, localType mode p.kind, e⟩ := by
  obtain ⟨e, he⟩ := Option.isSome_iff_exists.1 h
  exact ⟨e, he, by rw [validation_of_some he]; rfl⟩

theorem eq_none_of_not_isHeld (h : isHeld p = false) : validationExpr p.name p.kind = none :=
  Option.isNone_iff_eq_none.1 (Option.isSome_eq_false_iff.1 h)

theorem local?_of_not_isHeld (mode : Mode) (h : isHeld p = false) :
    (validation mode p).local? = none := by
  rw [validation_of_none (eq_none_of_not_isHeld h)]
  cases p.kind.isStandard <;> rfl

theorem localsOf_append (mode : Mode) (before after : List Property) :
    localsOf mode (before ++ after) = localsOf mode before ++ localsOf mode after :=
  List.filterMap_append

theorem names_localsOf (mode : Mode) (properties : List Property) :
    (localsOf mode properties).map (·.name) =
      (properties.filter isHeld).map Property.resultName := by
  rw [localsOf, List.map_filterMap, ← filterMap_if_some]
  refine List.filterMap_congr fun p _ => ?_
  cases h : isHeld p with
  | true =>
    obtain ⟨e, -, hlocal⟩ := local?_of_isHeld mode h
    rw [hlocal]
    rfl
  | false =>
    rw [local?_of_not_isHeld mode h]
    rfl

theorem mem_names_localsOf {name : String} :
    name ∈ (localsOf mode properties).map (·.name) ↔
      ∃ p ∈ properties, isHeld p = true ∧ p.resultName = name := by
  simp only [names_localsOf, List.mem_map, List.mem_filter, and_assoc]

/-! ### The code for a property -/

/-- The code that validates a list reads its parameter, if the name of this leads there. -/
theorem reads_validateElements {name : String} {m : NestedModel} {nullable : Bool} {s : Binders}
    {place : Nat} : (validateElements name m nullable).Reads s place .block ↔
      s.lookup name = some (.parameter place) := by
  unfold Expr.Reads
  obtain ⟨names, _ | _⟩ := m <;> cases nullable <;>
    simp [Expr.uses, Use.target, rightNull, withFallback, validateElements, presentElements]

/-- The code that validates a property reads its parameter, if the name of this leads there. -/
theorem reads_validationExpr {name : String} {kind : PropertyKind} {e : Expr TypeName}
    (h : validationExpr name kind = some e) {s : Binders} {place : Nat} :
    e.Reads s place .block ↔ s.lookup name = some (.parameter place) := by
  unfold Expr.Reads
  cases kind with
  | standard type arguments => cases h
  | value v =>
    cases h
    simp [Expr.uses, Use.target]
  | optionalValue v nullable =>
    cases nullable <;> cases h <;> simp [Expr.uses, Use.target, rightNull]
  | model m =>
    obtain ⟨names, _ | _⟩ := m <;> cases h
    simp [Expr.uses, Use.target, rightNull]
  | optionalModel m nullable =>
    cases h
    cases nullable <;> cases m.nullable <;>
      simp [Expr.uses, Use.target, rightNull, withFallback, presentModel]
  | modelList m nullable =>
    cases h
    exact reads_validateElements
  | modelNonEmptyList m nullable =>
    cases h
    exact reads_validateElements

/-- The code after the locals reads the result of a property in its local, if there is one and its
name leads there, and otherwise what has been passed for the property. -/
theorem reads_argumentOf (mode : Mode) {s : Binders} {place held : Nat} :
    (argumentOf mode p).value.Reads s place (.held held) ↔
      (isHeld p = true → s.lookup p.resultName = some (.held held)) ∧
      (isHeld p = false → s.lookup p.name = some (.parameter place)) := by
  rw [argumentOf, resultOf]
  cases h : isHeld p with
  | true =>
    obtain ⟨e, he, -⟩ := local?_of_isHeld mode h
    rw [validation_of_some he]
    simp [Validation.result?, Expr.Reads, Expr.uses, Use.target]
  | false =>
    rw [validation_of_none (eq_none_of_not_isHeld h)]
    cases p.kind.isStandard <;> simp [Validation.result?, Expr.Reads, Expr.uses, Use.target]

/-- A condition reads what the argument reads. -/
theorem uses_conditionOf {c : Condition TypeName} (h : conditionOf mode p = some c)
    (s : Binders) : c.result.uses s = (argumentOf mode p).value.uses s := by
  obtain ⟨e, he, rfl⟩ := Option.map_eq_some_iff.1 h
  rw [argumentOf, he]
  rfl

/-- A failure case reads what the argument reads. -/
theorem uses_failureCaseOf {c : FailureCase TypeName} (h : failureCaseOf mode p = some c)
    (s : Binders) : c.condition.result.uses s = (argumentOf mode p).value.uses s ∧
      c.value.uses s = (argumentOf mode p).value.uses s := by
  obtain ⟨e, he, rfl⟩ := Option.map_eq_some_iff.1 h
  rw [argumentOf, he]
  exact ⟨rfl, rfl⟩

/-- Everything in a factory that is written for the property after the given ones reads the
parameter of this property and its local: the value of the local, where the locals before it are in
scope, and the argument, the condition and the failure case, where all are. -/
structure ReadsAt (f : Factory TypeName TypeName) (mode : Mode) (before : List Property)
    (p : Property) : Prop where
  value : ∀ l, (validation mode p).local? = some l →
    l.value.Reads (f.scope (localsOf mode before).length) before.length .block
  argument : (argumentOf mode p).value.Reads (f.scope f.locals.length) before.length
    (.held (localsOf mode before).length)
  condition : ∀ c, conditionOf mode p = some c →
    c.result.Reads (f.scope f.locals.length) before.length (.held (localsOf mode before).length)
  failure : ∀ c, failureCaseOf mode p = some c →
    c.condition.result.Reads (f.scope f.locals.length) before.length
      (.held (localsOf mode before).length) ∧
    c.value.Reads (f.scope f.locals.length) before.length (.held (localsOf mode before).length)

/-- Every use in the factory of the properties refers to what it is written for. -/
def ReadsOwn (f : Factory TypeName TypeName) (mode : Mode) (properties : List Property) : Prop :=
  ∀ before p after, properties = before ++ p :: after → ReadsAt f mode before p

section

variable {t : FactoryTarget} {name : String}

/-- The scope after the locals of some of the properties. -/
theorem scope_factory (t : FactoryTarget) (name : String) (before after : List Property) :
    (factory t name (before ++ after)).scope (localsOf t.mode before).length =
      (Binders.places .held ((localsOf t.mode before).map (·.name))).reverse ++
        Binders.places .parameter ((before ++ after).map (·.name)) := by
  have hlocals : (factory t name (before ++ after)).locals.take (localsOf t.mode before).length =
      localsOf t.mode before := by
    show (localsOf t.mode (before ++ after)).take _ = _
    rw [localsOf_append, List.take_left]
  have hparameters : (factory t name (before ++ after)).parameters.map (·.name) =
      (before ++ after).map (·.name) := List.map_map
  rw [Factory.scope, hlocals, hparameters]

theorem scope_factory_all (t : FactoryTarget) (name : String) (properties : List Property) :
    (factory t name properties).scope (factory t name properties).locals.length =
      (Binders.places .held ((localsOf t.mode properties).map (·.name))).reverse ++
        Binders.places .parameter (properties.map (·.name)) := by
  have h := scope_factory t name properties []
  rwa [List.append_nil] at h

/-- The name of a parameter leads to this parameter if and only if no local in scope has it. -/
theorem lookup_parameter_iff (held : List String)
    (hnames : ((before ++ p :: after).map (·.name)).Nodup) :
    ((Binders.places .held held).reverse ++
        Binders.places .parameter ((before ++ p :: after).map (·.name))).lookup p.name =
      some (.parameter before.length) ↔ p.name ∉ held := by
  rw [List.map_append, List.map_cons] at hnames ⊢
  have hfirst : p.name ∉ before.map (·.name) := fun hmem =>
    (List.nodup_append.1 hnames).2.2 _ hmem _ List.mem_cons_self rfl
  constructor
  · intro hlookup hheld
    obtain ⟨earlier, later, rfl, hlast⟩ := Binders.exists_last hheld
    rw [Binders.lookup_places_reverse hlast] at hlookup
    cases hlookup
  · intro hheld
    rw [Binders.lookup_append_of_not_mem
      (by rwa [List.map_reverse, List.mem_reverse, Binders.names_places]),
      Binders.lookup_places hfirst, List.length_map]

/-- The name of a local leads to this local if and only if no later one has it. -/
theorem lookup_held_iff {before after : List String} {name : String} {s : Binders} :
    ((Binders.places .held (before ++ name :: after)).reverse ++ s).lookup name =
      some (.held before.length) ↔ name ∉ after := by
  constructor
  · intro hlookup hmem
    obtain ⟨earlier, later, rfl, hlast⟩ := Binders.exists_last hmem
    rw [← List.cons_append, ← List.append_assoc, Binders.lookup_places_reverse hlast] at hlookup
    have hplace := Binder.held.inj (Option.some.inj hlookup)
    rw [List.length_append, List.length_cons] at hplace
    omega
  · exact Binders.lookup_places_reverse

/-- The value of a local reads the parameter of its property if and only if no local before it is
called like this property. -/
theorem reads_local_iff (hnames : ((before ++ p :: after).map (·.name)).Nodup) :
    (∀ l, (validation t.mode p).local? = some l →
        l.value.Reads
          ((factory t name (before ++ p :: after)).scope (localsOf t.mode before).length)
          before.length .block) ↔
      (isHeld p = true → p.name ∉ (localsOf t.mode before).map (·.name)) := by
  cases h : isHeld p with
  | true =>
    obtain ⟨e, he, hlocal⟩ := local?_of_isHeld t.mode h
    have hreads := (reads_validationExpr he).trans
      (lookup_parameter_iff ((localsOf t.mode before).map (·.name)) hnames)
    rw [hlocal, scope_factory]
    exact ⟨fun hlocals _ => hreads.1 (hlocals _ rfl),
      fun hfree l hl => Option.some.inj hl ▸ hreads.2 (hfree rfl)⟩
  | false =>
    rw [local?_of_not_isHeld t.mode h]
    exact ⟨fun _ => nofun, fun _ => nofun⟩

/-- The argument reads what belongs to its property if and only if no later local has the name of
its local, or if there is none, no local is called like the property. -/
theorem reads_argument_iff (hnames : ((before ++ p :: after).map (·.name)).Nodup) :
    (argumentOf t.mode p).value.Reads
        ((factory t name (before ++ p :: after)).scope
          (factory t name (before ++ p :: after)).locals.length)
        before.length (.held (localsOf t.mode before).length) ↔
      (isHeld p = true → p.resultName ∉ (localsOf t.mode after).map (·.name)) ∧
      (isHeld p = false →
        p.name ∉ (localsOf t.mode (before ++ p :: after)).map (·.name)) := by
  rw [reads_argumentOf, scope_factory_all, lookup_parameter_iff _ hnames]
  refine and_congr_left' (forall_congr' fun h => ?_)
  have hlocals : (localsOf t.mode (before ++ p :: after)).map (·.name) =
      (localsOf t.mode before).map (·.name) ++
        p.resultName :: (localsOf t.mode after).map (·.name) := by
    simp only [names_localsOf, List.filter_append, List.filter_cons_of_pos h, List.map_append,
      List.map_cons]
  have hlength : (localsOf t.mode before).length = ((localsOf t.mode before).map (·.name)).length :=
    (List.length_map _).symm
  rw [hlocals, hlength, lookup_held_iff]

/-- What is read comes down to names: the local of a property is preceded by no local that is
called like the property, and followed by none of its own name; and where there is no local, no
local at all is called like the property. -/
theorem readsAt_iff (hnames : ((before ++ p :: after).map (·.name)).Nodup) :
    ReadsAt (factory t name (before ++ p :: after)) t.mode before p ↔
      (isHeld p = true → p.name ∉ (localsOf t.mode before).map (·.name)) ∧
      (isHeld p = true → p.resultName ∉ (localsOf t.mode after).map (·.name)) ∧
      (isHeld p = false → p.name ∉ (localsOf t.mode (before ++ p :: after)).map (·.name)) := by
  rw [← reads_local_iff hnames, ← reads_argument_iff hnames]
  constructor
  · exact fun h => ⟨h.value, h.argument⟩
  · rintro ⟨hvalue, hargument⟩
    refine ⟨hvalue, hargument, fun c hc => ?_, fun c hc => ?_⟩
    · rw [Expr.Reads, uses_conditionOf hc]
      exact hargument
    · obtain ⟨hcondition, hcontent⟩ := uses_failureCaseOf hc (Factory.scope _ _)
      rw [Expr.Reads, Expr.Reads, hcondition, hcontent]
      exact ⟨hargument, hargument⟩

end

/-! ### The names and the order of the properties -/

/-- No two properties with locals have names that merge. -/
def LocalsApart (properties : List Property) : Prop :=
  ∀ p ∈ properties, ∀ q ∈ properties, isHeld p = true → isHeld q = true → p.name ≠ q.name →
    ¬ MergesWith p.name q.name

/-- No property is called like the local of another. -/
def NoneHidden (properties : List Property) : Prop :=
  ∀ p ∈ properties, isHeld p = true → ∀ q ∈ properties, q.name ≠ p.resultName

/-- A property that is called like the local of another one has a local itself, and stands before
the other one: its parameter is hidden once it has been read. -/
def HiddenLate (properties : List Property) : Prop :=
  ∀ before p after, properties = before ++ p :: after → isHeld p = true → ∀ q ∈ properties,
    q.name = p.resultName → isHeld q = true ∧ q ∈ before

theorem NoneHidden.hiddenLate {properties : List Property} (h : NoneHidden properties) :
    HiddenLate properties := by
  rintro before p after rfl hheld q hq hname
  exact absurd hname (h p (List.mem_append_right _ List.mem_cons_self) hheld q hq)

section

variable {properties : List Property} {t : FactoryTarget} {name : String}

theorem nodup_locals_iff (mode : Mode) (hnames : (properties.map (·.name)).Nodup) :
    ((localsOf mode properties).map (·.name)).Nodup ↔ LocalsApart properties := by
  have hheld : (properties.filter isHeld).Nodup := (List.Nodup.of_map _ hnames).filter _
  rw [names_localsOf, List.nodup_map_iff_inj_on hheld]
  simp only [List.mem_filter]
  constructor
  · intro h p hp q hq hheldp hheldq hne hmerge
    have hsame : p.resultName = q.resultName := resultName_eq_iff.2 (.inr (.inl hmerge))
    exact hne (congrArg _ (h p ⟨hp, hheldp⟩ q ⟨hq, hheldq⟩ hsame))
  · rintro h p ⟨hp, hheldp⟩ q ⟨hq, hheldq⟩ hsame
    refine List.inj_on_of_nodup_map hnames hp hq ?_
    by_contra hne
    rcases resultName_eq_iff.1 hsame with heq | hmerge | hmerge
    · exact hne heq
    · exact h p hp q hq hheldp hheldq hne hmerge
    · exact h q hq p hp hheldq hheldp (Ne.symm hne) hmerge

theorem apart_iff (mode : Mode) :
    (∀ l ∈ localsOf mode properties, ∀ p ∈ properties, l.name ≠ p.name) ↔
      NoneHidden properties := by
  have hlocals : (∀ l ∈ localsOf mode properties, ∀ p ∈ properties, l.name ≠ p.name) ↔
      ∀ n ∈ (localsOf mode properties).map (·.name), ∀ p ∈ properties, n ≠ p.name := by
    rw [List.forall_mem_map]
  rw [hlocals, names_localsOf, List.forall_mem_map]
  simp only [List.mem_filter, and_imp]
  exact forall₄_congr fun p _ _ q => imp_congr_right fun _ => ne_comm

/-- Of two members of a list, one stands before the other. -/
theorem split_of_mem {p q : Property} (hp : p ∈ properties) (hq : q ∈ properties) (hne : p ≠ q) :
    (∃ before after, properties = before ++ p :: after ∧ q ∈ after) ∨
      ∃ before after, properties = before ++ q :: after ∧ p ∈ after := by
  obtain ⟨before, after, rfl⟩ := List.append_of_mem hp
  rcases List.mem_append.1 hq with hbefore | hafter
  · obtain ⟨earlier, later, rfl⟩ := List.append_of_mem hbefore
    refine .inr ⟨earlier, later ++ p :: after, ?_, List.mem_append_right _ List.mem_cons_self⟩
    rw [List.append_assoc, List.cons_append]
  · exact .inl ⟨before, after, rfl, List.mem_of_ne_of_mem hne.symm hafter⟩

theorem name_ne_of_mem {before after : List Property} {p q : Property}
    (hnames : ((before ++ p :: after).map (·.name)).Nodup) (hq : q ∈ before ∨ q ∈ after) :
    p.name ≠ q.name := by
  rw [List.map_append, List.map_cons, List.nodup_append, List.nodup_cons] at hnames
  obtain ⟨-, ⟨hafter, -⟩, hapart⟩ := hnames
  rcases hq with hq | hq
  · exact (hapart _ (List.mem_map_of_mem hq) _ List.mem_cons_self).symm
  · exact fun heq => hafter (heq ▸ List.mem_map_of_mem hq)

/-- If every use refers to what it is written for, the later of two locals does not have the name of
the earlier one. -/
theorem localsApart_of_readsOwn (hnames : (properties.map (·.name)).Nodup)
    (h : ReadsOwn (factory t name properties) t.mode properties) : LocalsApart properties := by
  have hlater : ∀ before p after, properties = before ++ p :: after → isHeld p = true →
      ∀ q ∈ after, isHeld q = true → q.resultName ≠ p.resultName := by
    rintro before p after rfl hheld q hq hheldq heq
    have hown := ((readsAt_iff hnames).1 (h before p after rfl)).2.1 hheld
    exact hown (mem_names_localsOf.2 ⟨q, hq, hheldq, heq⟩)
  intro p hp q hq hheldp hheldq hne hmerge
  have hsame : p.resultName = q.resultName := resultName_eq_iff.2 (.inr (.inl hmerge))
  rcases split_of_mem hp hq (fun heq => hne (congrArg _ heq)) with
    ⟨before, after, hsplit, hmem⟩ | ⟨before, after, hsplit, hmem⟩
  · exact hlater before p after hsplit hheldp q hmem hheldq hsame.symm
  · exact hlater before q after hsplit hheldq p hmem hheldp hsame

/-- If every use refers to what it is written for, a parameter that is hidden by the local of a
property is that of an earlier property, which has a local. -/
theorem hiddenLate_of_readsOwn (hnames : (properties.map (·.name)).Nodup)
    (h : ReadsOwn (factory t name properties) t.mode properties) : HiddenLate properties := by
  have hreads : ∀ earlier q later, properties = earlier ++ q :: later →
      (isHeld q = true → q.name ∉ (localsOf t.mode earlier).map (·.name)) ∧
      (isHeld q = false → q.name ∉ (localsOf t.mode properties).map (·.name)) := by
    rintro earlier q later rfl
    obtain ⟨hvalue, -, hpassed⟩ := (readsAt_iff hnames).1 (h earlier q later rfl)
    exact ⟨hvalue, hpassed⟩
  intro before p after hsplit hheld q hq hname
  have hhidden : ∀ ps : List Property, p ∈ ps → q.name ∈ (localsOf t.mode ps).map (·.name) :=
    fun ps hp => mem_names_localsOf.2 ⟨p, hp, hheld, hname.symm⟩
  have hheldq : isHeld q = true := by
    obtain ⟨earlier, later, hat⟩ := List.append_of_mem hq
    rw [← Bool.not_eq_false]
    exact fun hfalse => (hreads earlier q later hat).2 hfalse (hhidden _ (by simp [hsplit]))
  refine ⟨hheldq, ?_⟩
  rw [hsplit, List.mem_append, List.mem_cons] at hq
  rcases hq with hbefore | rfl | hafter
  · exact hbefore
  · exact absurd hname.symm (resultName_ne _)
  · -- the value of its local would read the earlier local in place of the parameter
    obtain ⟨earlier, later, rfl⟩ := List.append_of_mem hafter
    rw [← List.cons_append, ← List.append_assoc] at hsplit
    exact absurd (hhidden _ (by simp)) ((hreads _ q later hsplit).1 hheldq)

/-- If no locals have one name, and a parameter is only hidden once it has been read, every use
refers to what it is written for. -/
theorem readsOwn_of_apart (hnames : (properties.map (·.name)).Nodup)
    (hapart : LocalsApart properties) (hlate : HiddenLate properties) :
    ReadsOwn (factory t name properties) t.mode properties := by
  rintro before p after rfl
  refine (readsAt_iff hnames).2 ⟨fun hheld hmem => ?_, fun hheld hmem => ?_, fun hheld hmem => ?_⟩
  · -- the property would have to stand before the one whose local hides it
    obtain ⟨q, hq, hheldq, hname⟩ := mem_names_localsOf.1 hmem
    obtain ⟨earlier, later, rfl⟩ := List.append_of_mem hq
    have hsplit : (earlier ++ q :: later) ++ p :: after =
        earlier ++ q :: (later ++ p :: after) := by simp
    have hearlier := (hlate _ _ _ hsplit hheldq p (by simp) hname.symm).2
    exact name_ne_of_mem hnames (.inl (List.mem_append_left _ hearlier)) rfl
  · obtain ⟨q, hq, hheldq, hname⟩ := mem_names_localsOf.1 hmem
    have hne := name_ne_of_mem hnames (.inr hq)
    rcases resultName_eq_iff.1 hname with heq | hmerge | hmerge
    · exact hne heq.symm
    · exact hapart q (by simp [hq]) p (by simp) hheldq hheld hne.symm hmerge
    · exact hapart p (by simp) q (by simp [hq]) hheld hheldq hne hmerge
  · obtain ⟨q, hq, hheldq, hname⟩ := mem_names_localsOf.1 hmem
    obtain ⟨earlier, later, hsplit⟩ := List.append_of_mem hq
    have hheldp := (hlate _ _ _ hsplit hheldq p (by simp) hname.symm).1
    rw [hheld] at hheldp
    cases hheldp

/-- In a factory every use refers to what it is written for, if and only if no properties with
locals merge and every parameter that is hidden has been read before. -/
theorem readsOwn_iff (hnames : (properties.map (·.name)).Nodup) :
    ReadsOwn (factory t name properties) t.mode properties ↔
      LocalsApart properties ∧ HiddenLate properties :=
  ⟨fun h => ⟨localsApart_of_readsOwn hnames h, hiddenLate_of_readsOwn hnames h⟩,
    fun h => readsOwn_of_apart hnames h.1 h.2⟩

end

end Generation

/-! ### Models -/

namespace Model

open Generation

variable {m : Model} {mode : Mode} {properties : List Property} {f : Factory TypeName TypeName}

/-- The function is made of the properties: it is the factory of the model or of the params, that of
one of its validation templates, or the companion's extension. -/
inductive Makes (m : Model) : Mode → List Property → Factory TypeName TypeName → Prop
  | of (mode : Mode) : Makes m mode (m.propertiesIn mode)
    (factory (m.factoryTarget mode) "of" (m.propertiesIn mode))
  | template {mode : Mode} {t : ValidationTemplate} (ht : t ∈ m.templatesIn mode) :
    Makes m mode (t.apply (m.propertiesIn mode))
      (factory (m.factoryTarget mode) t.function (t.apply (m.propertiesIn mode)))
  | companion (name : String) : Makes m .model m.properties (m.companionOf name)

theorem HasFactory.makes (h : m.HasFactory f) : ∃ mode properties, m.Makes mode properties f := by
  rcases h with ⟨mode, hf⟩ | ⟨companion, rfl⟩
  · rcases List.mem_cons.1 hf with rfl | hf
    · exact ⟨_, _, .of mode⟩
    · obtain ⟨t, ht, rfl⟩ := List.mem_map.1 hf
      exact ⟨_, _, .template ht⟩
  · exact ⟨_, _, .companion companion⟩

theorem Makes.eq_factory (h : m.Makes mode properties f) :
    ∃ t name, t.mode = mode ∧ f = factory t name properties := by
  cases h with
  | of mode => cases mode <;> exact ⟨_, _, rfl, rfl⟩
  | template => cases mode <;> exact ⟨_, _, rfl, rfl⟩
  | companion name => exact ⟨_, _, rfl, rfl⟩

theorem nodup_propertiesIn (hnames : (m.properties.map (·.name)).Nodup) (mode : Mode) :
    ((m.propertiesIn mode).map (·.name)).Nodup := by
  cases mode with
  | model => exact hnames
  | params => exact hnames.sublist (List.filter_sublist.map _)

theorem Makes.nodup (h : m.Makes mode properties f)
    (hnames : (m.properties.map (·.name)).Nodup) : (properties.map (·.name)).Nodup := by
  cases h with
  | of mode => exact nodup_propertiesIn hnames mode
  | template =>
    rw [ValidationTemplate.map_name_apply fun name => name]
    exact nodup_propertiesIn hnames mode
  | companion name => exact hnames

end Model

open Generation in
/-- **What names refer to in the factories of a model.**  Every factory of an analyzed model is made
of properties with different names.  Its locals have different names if and only if no two
properties with locals merge in upper case; no local has the name of a parameter if and only if no
property is called like the local of another; and every use of a parameter or a local refers to what
it is written for if and only if no two properties with locals merge and every parameter that is
hidden has been read before. -/
theorem Context.scopes_of_modelAlone {ctx : Context} {t : Target} {m : Model}
    (h : ctx.modelAlone t = .ok m) {f : Factory TypeName TypeName} (hf : m.HasFactory f) :
    ∃ mode properties, m.Makes mode properties f ∧
      ((f.locals.map (·.name)).Nodup ↔ LocalsApart properties) ∧
      ((∀ l ∈ f.locals, ∀ p ∈ f.parameters, l.name ≠ p.name) ↔ NoneHidden properties) ∧
      (ReadsOwn f mode properties ↔ LocalsApart properties ∧ HiddenLate properties) := by
  have hall : (m.properties.map (·.name)).Nodup :=
    (propertyShape_of_modelOf (Analysis.sound_start ctx) (modelOf_of_modelAlone h)).nodup
  obtain ⟨mode, properties, hmakes⟩ := hf.makes
  have hnames := hmakes.nodup hall
  obtain ⟨target, name, rfl, rfl⟩ := hmakes.eq_factory
  refine ⟨_, _, hmakes, nodup_locals_iff _ hnames, ?_, readsOwn_iff hnames⟩
  rw [← apart_iff target.mode]
  exact forall₂_congr fun l _ => List.forall_mem_map

/-! ### A hidden parameter

The tag has a property that is called like the local of another. -/

namespace Sample

def tagTemplate : ClassDecl :=
  templateOf "TagTemplate" "Tag" [("vName", .named "kotlin.String"), ("name", .named "t.Deep")]

def tags : Context :=
  ⟨⟨context.index.entries ++ [⟨.ofClass tagTemplate, "t.json"⟩]⟩, {}⟩

def tag : Target :=
  ⟨tagTemplate, .template (.mk "modelsmith.annotation.ModelTemplate" [("name", .string "Tag")])⟩

/-- The first factory of the model. -/
def factoryOf (m : Model) : Factory TypeName TypeName :=
  Generation.factory (m.factoryTarget .model) "of" (m.propertiesIn .model)

theorem hasFactory_factoryOf (m : Model) : m.HasFactory (factoryOf m) :=
  .inl ⟨.model, List.mem_cons_self⟩

/-- The names of the parameters and of the locals of a factory. -/
def declaredNames (f : Factory TypeName TypeName) : List String × List String :=
  (f.parameters.map (·.name), f.locals.map (·.name))

/-- What is used in the arguments of a factory. -/
def argumentUses (f : Factory TypeName TypeName) : List (String × List (Use × Option Binder)) :=
  f.arguments.map fun a => (a.name, a.value.uses (f.scope f.locals.length))

end Sample

theorem Context.scopes_of_modelAlone_account :
    ∃ m, Sample.bank.modelAlone Sample.account = .ok m ∧
      Sample.declaredNames (Sample.factoryOf m) =
        (["id", "label", "limit", "owner"], ["vId", "vLimit"]) ∧
      ∃ mode properties, m.Makes mode properties (Sample.factoryOf m) ∧
        Generation.ReadsOwn (Sample.factoryOf m) mode properties := by
  have hnames : (Sample.bank.modelAlone Sample.account).map
      (fun m => Sample.declaredNames (Sample.factoryOf m)) =
      .ok (["id", "label", "limit", "owner"], ["vId", "vLimit"]) := by
    decide +kernel
  obtain ⟨m, hm, hnames⟩ := Json.map_eq_ok_iff.1 hnames
  obtain ⟨mode, properties, hmakes, hnodup, hapart, hreads⟩ :=
    Context.scopes_of_modelAlone hm (Sample.hasFactory_factoryOf m)
  obtain ⟨hparameters, hlocals⟩ := Prod.mk.inj hnames
  have hhidden : ∀ n ∈ (Sample.factoryOf m).locals.map (·.name),
      ∀ n' ∈ (Sample.factoryOf m).parameters.map (·.name), n ≠ n' := by
    rw [hparameters, hlocals]
    decide
  have hnone := hapart.1 fun l hl p hp =>
    hhidden _ (List.mem_map_of_mem hl) _ (List.mem_map_of_mem hp)
  exact ⟨m, hm, hnames, mode, properties, hmakes,
    hreads.2 ⟨hnodup.1 (by rw [hlocals]; decide), hnone.hiddenLate⟩⟩

/-- The tag is accepted.  Its factory has a parameter and a local of one name, and the argument that
is to pass the parameter on refers to the local. -/
theorem Context.parameter_hidden :
    ∃ m, Sample.tags.modelAlone Sample.tag = .ok m ∧ m.HasFactory (Sample.factoryOf m) ∧
      Sample.declaredNames (Sample.factoryOf m) = (["vName", "name"], ["vName"]) ∧
      Sample.argumentUses (Sample.factoryOf m) =
        [("vName", [(.parameter "vName", some (.held 0))]),
          ("name", [(.held "vName", some (.held 0))])] := by
  have hnames : (Sample.tags.modelAlone Sample.tag).map
      (fun m => Sample.declaredNames (Sample.factoryOf m)) =
      .ok (["vName", "name"], ["vName"]) := by
    decide +kernel
  have huses : (Sample.tags.modelAlone Sample.tag).map
      (fun m => Sample.argumentUses (Sample.factoryOf m)) =
      .ok [("vName", [(.parameter "vName", some (.held 0))]),
        ("name", [(.held "vName", some (.held 0))])] := by
    decide +kernel
  obtain ⟨m, hm, hnames⟩ := Json.map_eq_ok_iff.1 hnames
  rw [hm] at huses
  exact ⟨m, hm, Sample.hasFactory_factoryOf m, hnames, Except.ok.inj huses⟩

end ModelForge
