/-
The names in a file come from its model.

A file is written with the names of properties and what these are turned into, with the names of
functions and companions, and with the parts of packages and classes.  All of them are supplied
by the model, or they belong to the libraries that generated code is based on:

* `PropertyKind.typeNames`, `Model.typeNames` — the classes that code is made of.  No type of a
  field, of a parameter or of a failure has others: `Generation.classNames_fieldType` and so on;
* `Model.Supplies` — the names that a model supplies, each with what it is the name of;
* `Generation.Supplied` — a property whose names and classes are allowed, and so is every factory
  of such properties: `Generation.factory_in`;
* `Model.content_in` — so all that is generated keeps to what the model supplies.

The main statement is `Model.supplies_of_mem_words`.
-/
import ModelForge.Generation
import ModelForge.Proofs.SpelledVocabulary

namespace ModelForge

open Kotlin

/-! ### The classes of a model -/

/-- The libraries' classes and functions that generated code is based on. -/
def libraryNames : List String :=
  ["arrow.core.Either", "arrow.core.None", "arrow.core.Some", "arrow.core.Nel",
    "arrow.core.Option", "kotlin.collections.List", "arrow.core.toNonEmptyListOrNull",
    "modelsmith.core.validate"]

/-- The endings of what is generated beside a model. -/
def generatedEndings : List String :=
  ["Params", "Builder", "FieldFailure", "RequiredFieldFailure"]

/-- The classes of the model, and those that are generated beside it. -/
def ModelNames.typeNames (n : ModelNames) : List String :=
  n.model.classNames ++ generatedEndings.map fun ending => (n.withEnding ending).canonicalName

/-- The classes of a validated value. -/
def ValidatedValue.typeNames (v : ValidatedValue) : List String :=
  v.wrapper.classNames ++ (v.value.classNames ++ v.failure.classNames)

namespace PropertyKind

mutual

/-- The classes that a property of this kind is made of. -/
def typeNames : PropertyKind → List String
  | standard type arguments => type.classNames ++ typeNamesOfList arguments
  | value v | optionalValue v _ => v.typeNames
  | model m | optionalModel m _ | modelList m _ | modelNonEmptyList m _ => m.names.typeNames

/-- The classes of an argument. -/
def typeNamesOf : Option PropertyKind → List String
  | none => []
  | some kind => typeNames kind

/-- The classes of the arguments. -/
def typeNamesOfList : List (Option PropertyKind) → List String
  | [] => []
  | a :: as => typeNamesOf a ++ typeNamesOfList as

end

end PropertyKind

/-- The companion that the functions of a class extend. -/
def ModelTarget.companions : ModelTarget → List String
  | template => []
  | validatable companion => [companion]

namespace Model

/-- The classes that the files of a model are made of. -/
def typeNames (m : Model) : List String :=
  libraryNames ++ (m.names.typeNames ++ m.properties.flatMap (·.kind.typeNames))

/-- The names that a model supplies for its files, and those of the libraries. -/
inductive Supplies (m : Model) : Role → String → Prop
  | property {p : Property} (hp : p ∈ m.properties) : Supplies m .property p.name
  | result {p : Property} (hp : p ∈ m.properties) : Supplies m .held p.resultName
  /-- the parameter of a block for the content of an option -/
  | element : Supplies m .held "model"
  | variant {p : Property} (hp : p ∈ m.properties) : Supplies m .variant p.failureName
  /-- the factory of the class itself -/
  | factory : Supplies m .function "of"
  | template {t : ValidationTemplate} (ht : t ∈ m.templates) : Supplies m .function t.function
  | companion {companion : String} (hm : m.target = .validatable companion) :
      Supplies m .companion companion
  | package {s : String} (hs : s ∈ dotted m.names.package) : Supplies m .segment s
  | ofClass {name s : String} (hname : name ∈ m.typeNames) (hs : s ∈ dotted name) :
      Supplies m .segment s

end Model

/-! ### The classes of types -/

namespace TypeName

@[simp] theorem classNames_withNullable (t : TypeName) (nullable : Bool) :
    (t.withNullable nullable).classNames = t.classNames := by
  cases t
  rfl

theorem canonicalName_mem_classNames (t : TypeName) : t.canonicalName ∈ t.classNames := by
  cases t
  exact List.mem_cons_self

theorem classNames_withArguments (t : TypeName) (arguments : List (Option TypeName)) :
    (t.withArguments arguments).classNames =
      t.canonicalName :: (classesOfList arguments).map canonicalName := by
  cases t
  rfl

theorem classNames_applied (t : TypeName) (arguments : List TypeName) :
    (t.applied arguments).classNames = t.canonicalName :: arguments.flatMap classNames := by
  have harguments : (classesOfList (arguments.map some)).map canonicalName =
      arguments.flatMap classNames := by
    induction arguments with
    | nil => rfl
    | cons a as ih => simp [classesOfList, classesOf, classNames, ih]
  rw [applied, classNames_withArguments, harguments]

end TypeName

namespace ModelNames

theorem classNames_withEnding (n : ModelNames) (ending : String) :
    (n.withEnding ending).classNames = [(n.withEnding ending).canonicalName] := rfl

theorem withEnding_mem_typeNames (n : ModelNames) {ending : String}
    (h : ending ∈ generatedEndings) : (n.withEnding ending).canonicalName ∈ n.typeNames :=
  List.mem_append_right _ (List.mem_map_of_mem h)

theorem classNames_model_subset (n : ModelNames) : n.model.classNames ⊆ n.typeNames :=
  List.subset_append_left _ _

theorem classNames_withEnding_subset (n : ModelNames) {ending : String}
    (h : ending ∈ generatedEndings) : (n.withEnding ending).classNames ⊆ n.typeNames := by
  rw [classNames_withEnding]
  simpa using n.withEnding_mem_typeNames h

theorem classNames_fieldFailure_subset (n : ModelNames) : n.fieldFailure.classNames ⊆ n.typeNames :=
  n.classNames_withEnding_subset (by decide)

theorem classNames_params_subset (n : ModelNames) : n.params.classNames ⊆ n.typeNames := by
  unfold params
  split
  · exact n.classNames_withEnding_subset (by decide)
  · exact n.classNames_model_subset

theorem classNames_requiredFieldFailure_subset (n : ModelNames) :
    n.requiredFieldFailure.classNames ⊆ n.typeNames := by
  unfold requiredFieldFailure
  split
  · exact n.classNames_withEnding_subset (by decide)
  · exact n.classNames_fieldFailure_subset

theorem classNames_builder_subset {n : ModelNames} {builder : TypeName}
    (h : n.builder? = some builder) : builder.classNames ⊆ n.typeNames := by
  unfold builder? at h
  split at h
  · cases h
    exact n.classNames_withEnding_subset (by decide)
  · cases h

end ModelNames

namespace Generation

open PropertyKind (typeNames typeNamesOf typeNamesOfList)

section Types

variable {P : String → Prop} (hlibrary : ∀ n ∈ libraryNames, P n)

include hlibrary

theorem classNames_option {t : TypeName} (h : ∀ n ∈ t.classNames, P n) :
    ∀ n ∈ (option t).classNames, P n := by
  have hoption : P (arrow "Option").canonicalName := hlibrary _ (by decide)
  simpa [option, TypeName.classNames_applied, hoption] using h

theorem classNames_nonEmptyList {t : TypeName} (h : ∀ n ∈ t.classNames, P n) :
    ∀ n ∈ (nonEmptyList t).classNames, P n := by
  have hlist : P (arrow "Nel").canonicalName := hlibrary _ (by decide)
  simpa [nonEmptyList, TypeName.classNames_applied, hlist] using h

theorem classNames_list {t : TypeName} (h : ∀ n ∈ t.classNames, P n) :
    ∀ n ∈ (list t).classNames, P n := by
  have hlist : P (TypeName.simple "kotlin.collections" "List").canonicalName :=
    hlibrary _ (by decide)
  simpa [list, TypeName.classNames_applied, hlist] using h

theorem classNames_either {failure success : TypeName} (hfailure : ∀ n ∈ failure.classNames, P n)
    (hsuccess : ∀ n ∈ success.classNames, P n) :
    ∀ n ∈ (either failure success).classNames, P n := by
  have heither : P eitherClass.canonicalName := hlibrary _ (by decide)
  have hboth := List.forall_mem_append.2 ⟨hfailure, hsuccess⟩
  simpa [either, TypeName.classNames_applied, heither] using hboth

omit hlibrary in
theorem classNames_nestedClass {m : NestedModel} (h : ∀ n ∈ m.names.typeNames, P n) (mode : Mode) :
    ∀ n ∈ (nestedClass m mode).classNames, P n := by
  intro n hn
  cases mode with
  | model => exact h n (m.names.classNames_model_subset hn)
  | params => exact h n (m.names.classNames_params_subset hn)

omit hlibrary in
theorem classNames_nestedFailure {m : NestedModel} (h : ∀ n ∈ m.names.typeNames, P n)
    (mode : Mode) : ∀ n ∈ (nestedFailure m mode).classNames, P n := by
  intro n hn
  cases mode with
  | model => exact h n (m.names.classNames_fieldFailure_subset hn)
  | params => exact h n (m.names.classNames_requiredFieldFailure_subset hn)

omit hlibrary in
theorem classNames_nestedType {m : NestedModel} (h : ∀ n ∈ m.names.typeNames, P n) (mode : Mode) :
    ∀ n ∈ (nestedType m mode).classNames, P n := by
  rw [nestedType, TypeName.classNames_withNullable]
  exact classNames_nestedClass h mode

theorem classNames_nestedInput {m : NestedModel} (h : ∀ n ∈ m.names.typeNames, P n) (mode : Mode) :
    ∀ n ∈ (nestedInput m mode).classNames, P n := by
  rw [nestedInput, TypeName.classNames_withNullable]
  have hfailure := classNames_nonEmptyList hlibrary (classNames_nestedFailure h mode)
  exact classNames_either hlibrary hfailure (classNames_nestedClass h mode)

omit hlibrary in
theorem classNames_value {v : ValidatedValue} (h : ∀ n ∈ v.typeNames, P n) :
    (∀ n ∈ v.wrapper.classNames, P n) ∧ (∀ n ∈ v.value.classNames, P n) ∧
      ∀ n ∈ v.failure.classNames, P n := by
  simpa only [ValidatedValue.typeNames, List.forall_mem_append] using h

omit hlibrary

mutual

/-- What the class stores is made of the classes of the property. -/
theorem classNames_fieldType (hlibrary : ∀ n ∈ libraryNames, P n) (mode : Mode) :
    ∀ kind : PropertyKind, (∀ n ∈ kind.typeNames, P n) → ∀ n ∈ (fieldType mode kind).classNames, P n
  -- without arguments the type is kept as it is, with those that it was written with
  | .standard type [], h => by
    rw [typeNames, typeNamesOfList, List.append_nil] at h
    rw [fieldType]
    exact h
  | .standard type (a :: as), h => by
    obtain ⟨htype, harguments⟩ := List.forall_mem_append.1 h
    rw [fieldType, TypeName.classNames_withArguments, List.forall_mem_cons]
    exact ⟨htype _ type.canonicalName_mem_classNames,
      classNames_fieldArguments hlibrary mode (a :: as) harguments⟩
  | .value v, h => by
    rw [fieldType, ValidatedValue.wrapperType, TypeName.classNames_withNullable]
    exact (classNames_value h).1
  | .optionalValue v nullable, h => by
    rw [fieldType, TypeName.classNames_withNullable]
    refine classNames_option hlibrary ?_
    rw [ValidatedValue.wrapperType, TypeName.classNames_withNullable]
    exact (classNames_value h).1
  | .model m, h => by
    rw [fieldType]
    exact classNames_nestedType h mode
  | .optionalModel m nullable, h => by
    rw [fieldType, TypeName.classNames_withNullable]
    exact classNames_option hlibrary (classNames_nestedType h mode)
  | .modelList m nullable, h => by
    rw [fieldType, TypeName.classNames_withNullable]
    exact classNames_list hlibrary (classNames_nestedType h mode)
  | .modelNonEmptyList m nullable, h => by
    rw [fieldType, TypeName.classNames_withNullable]
    exact classNames_nonEmptyList hlibrary (classNames_nestedType h mode)

theorem classNames_fieldArgument (hlibrary : ∀ n ∈ libraryNames, P n) (mode : Mode) :
    ∀ a : Option PropertyKind,
    (∀ n ∈ typeNamesOf a, P n) →
      ∀ n ∈ (TypeName.classesOf (fieldArgument mode a)).map TypeName.canonicalName, P n
  | none, _ => by
    rw [fieldArgument]
    exact nofun
  | some kind, h => by
    rw [fieldArgument]
    exact classNames_fieldType hlibrary mode kind h

theorem classNames_fieldArguments (hlibrary : ∀ n ∈ libraryNames, P n) (mode : Mode) :
    ∀ as : List (Option PropertyKind),
    (∀ n ∈ typeNamesOfList as, P n) →
      ∀ n ∈ (TypeName.classesOfList (fieldArguments mode as)).map TypeName.canonicalName, P n
  | [], _ => by
    rw [fieldArguments]
    exact nofun
  | a :: as, h => by
    obtain ⟨ha, has⟩ := List.forall_mem_append.1 h
    rw [fieldArguments, TypeName.classesOfList, List.map_append, List.forall_mem_append]
    exact ⟨classNames_fieldArgument hlibrary mode a ha,
      classNames_fieldArguments hlibrary mode as has⟩

end

include hlibrary

/-- And so is what a factory takes. -/
theorem classNames_inputType (mode : Mode) (kind : PropertyKind) (h : ∀ n ∈ kind.typeNames, P n) :
    ∀ n ∈ (inputType mode kind).classNames, P n := by
  cases kind with
  | standard type arguments => exact classNames_fieldType hlibrary mode _ h
  | value v =>
    rw [inputType, ValidatedValue.valueType, TypeName.classNames_withNullable]
    exact (classNames_value h).2.1
  | optionalValue v nullable =>
    rw [inputType, TypeName.classNames_withNullable]
    refine classNames_option hlibrary ?_
    rw [ValidatedValue.valueType, TypeName.classNames_withNullable]
    exact (classNames_value h).2.1
  | model m => exact classNames_nestedInput hlibrary h mode
  | optionalModel m nullable =>
    rw [inputType, TypeName.classNames_withNullable]
    exact classNames_option hlibrary (classNames_nestedInput hlibrary h mode)
  | modelList m nullable =>
    rw [inputType, TypeName.classNames_withNullable]
    exact classNames_list hlibrary (classNames_nestedInput hlibrary h mode)
  | modelNonEmptyList m nullable =>
    rw [inputType, TypeName.classNames_withNullable]
    exact classNames_nonEmptyList hlibrary (classNames_nestedInput hlibrary h mode)

theorem classNames_localFailure (mode : Mode) (kind : PropertyKind)
    (h : ∀ n ∈ kind.typeNames, P n) : ∀ t ∈ localFailure mode kind, ∀ n ∈ t.classNames, P n := by
  intro t ht
  have hnested : ∀ {m : NestedModel}, (∀ n ∈ m.names.typeNames, P n) →
      ∀ n ∈ (nonEmptyList (nestedFailure m mode)).classNames, P n :=
    fun hm => classNames_nonEmptyList hlibrary (classNames_nestedFailure hm mode)
  cases kind with
  | standard => cases ht
  | value | optionalValue =>
    cases ht
    exact (classNames_value h).2.2
  | model | optionalModel =>
    cases ht
    exact hnested h
  | modelList | modelNonEmptyList =>
    cases ht
    exact classNames_nonEmptyList hlibrary (hnested h)

/-- A variant carries what the factory of the model fails with. -/
theorem classNames_failurePayload (kind : PropertyKind) (h : ∀ n ∈ kind.typeNames, P n) :
    ∀ t ∈ failurePayload kind, ∀ n ∈ t.classNames, P n := by
  have heq : failurePayload kind = localFailure .model kind := by
    cases kind <;> rfl
  rw [heq]
  exact classNames_localFailure hlibrary .model kind h

theorem classNames_localType (mode : Mode) (kind : PropertyKind) (h : ∀ n ∈ kind.typeNames, P n) :
    ∀ t ∈ localType mode kind, ∀ n ∈ t.classNames, P n := by
  intro t ht
  have hmapped : ∀ u ∈ (localFailure mode kind).map fun failure =>
      either failure (fieldType mode kind), ∀ n ∈ u.classNames, P n := by
    intro u hu
    obtain ⟨failure, hfailure, rfl⟩ := Option.map_eq_some_iff.1 hu
    exact classNames_either hlibrary (classNames_localFailure hlibrary mode kind h failure hfailure)
      (classNames_fieldType hlibrary mode kind h)
  -- the local of a value that is wrapped is written without a type
  cases kind with
  | value => cases ht
  | _ => exact hmapped t ht

/-- And so is what a builder stages. -/
theorem classNames_builderType (kind : PropertyKind) (h : ∀ n ∈ kind.typeNames, P n) :
    ∀ n ∈ (builderType kind).classNames, P n := by
  cases kind with
  | model m =>
    rw [builderType]
    split
    · rename_i builder hbuilder
      rw [TypeName.classNames_withNullable]
      exact fun n hn => h n (ModelNames.classNames_builder_subset hbuilder hn)
    · exact classNames_fieldType hlibrary .params _ h
  | _ => exact classNames_fieldType hlibrary .params _ h

end Types

/-! ### Factories -/

section Factories

variable {Q : Role → String → Prop}

/-- What all generated code is made of is allowed. -/
structure LibraryIn (Q : Role → String → Prop) : Prop where
  names : ∀ n ∈ libraryNames, SegmentsIn Q n
  element : Q .held "model"

/-- What a property brings into the code is allowed. -/
structure Supplied (Q : Role → String → Prop) (p : Property) : Prop where
  property : Q .property p.name
  result : Q .held p.resultName
  variant : Q .variant p.failureName
  types : ∀ n ∈ p.kind.typeNames, SegmentsIn Q n

theorem LibraryIn.members (h : LibraryIn Q) : MembersIn Q :=
  ⟨h.names _ (by decide), h.names _ (by decide)⟩

theorem LibraryIn.either (h : LibraryIn Q) : SegmentsIn Q eitherClass.canonicalName :=
  h.names _ (by decide)

theorem LibraryIn.none (h : LibraryIn Q) : SegmentsIn Q noneObject.canonicalName :=
  h.names _ (by decide)

theorem LibraryIn.some (h : LibraryIn Q) : SegmentsIn Q someClass.canonicalName :=
  h.names _ (by decide)

variable (hlibrary : LibraryIn Q)

include hlibrary

theorem allIn_withFallback {e : Expr TypeName} (he : AllIn (spoken Q) e.pieces) (nullable : Bool) :
    AllIn (spoken Q) (withFallback nullable e).pieces := by
  have heither := hlibrary.either
  cases nullable with
  | false => exact he
  | true => simp [withFallback, rightNull, Expr.pieces, he, heither]

theorem allIn_presentModel (nullable : Bool) :
    AllIn (spoken Q) (presentModel nullable).pieces := by
  have heither := hlibrary.either
  have hsome := hlibrary.some
  have helement := hlibrary.element
  cases nullable <;>
    simp [presentModel, Expr.pieces, blockHeadPieces, heither, hsome, helement]

theorem allIn_validateElements {name : String} (hname : Q .property name) (m : NestedModel)
    (nullable : Bool) : AllIn (spoken Q) (validateElements name m nullable).pieces := by
  have heither := hlibrary.either
  have helements : AllIn (spoken Q) (presentElements name m.nullable nullable).pieces := by
    unfold presentElements
    split
    · simp [rightNull, Expr.pieces, blockHeadPieces, hname, heither]
    · simp [Expr.pieces, hname]
  refine allIn_withFallback hlibrary ?_ nullable
  simp [Expr.pieces, helements]

/-- A property is validated with its name, its classes and those of the library. -/
theorem allIn_validationExpr {name : String} (hname : Q .property name) {kind : PropertyKind}
    (h : ∀ n ∈ kind.typeNames, SegmentsIn Q n) :
    ∀ e ∈ validationExpr name kind, AllIn (spoken Q) e.pieces := by
  intro e he
  have heither := hlibrary.either
  cases kind with
  | standard => cases he
  | value v =>
    cases he
    have hwrapper := (classNames_value h).1 _ v.wrapper.canonicalName_mem_classNames
    cases v.nullable <;> simp [Expr.pieces, hname, hwrapper]
  | optionalValue v nullable =>
    have hwrapper := (classNames_value h).1 _ v.wrapper.canonicalName_mem_classNames
    cases nullable <;> cases he <;> cases v.nullable <;>
      simp [rightNull, Expr.pieces, hname, hwrapper, heither]
  | model m =>
    rw [validationExpr] at he
    split at he
    · cases he
      simp [rightNull, Expr.pieces, hname, heither]
    · cases he
  | optionalModel m nullable =>
    cases he
    have hnone := hlibrary.none
    have hpresent := allIn_presentModel hlibrary m.nullable
    refine allIn_withFallback hlibrary ?_ nullable
    simp [Expr.pieces, hname, heither, hnone, hpresent]
  | modelList m nullable =>
    cases he
    exact allIn_validateElements hlibrary hname m nullable
  | modelNonEmptyList m nullable =>
    cases he
    exact allIn_validateElements hlibrary hname m nullable

variable {p : Property} (hp : Supplied Q p) (mode : Mode)

include hp

theorem allIn_local : ∀ l ∈ (validation mode p).local?, AllIn (spoken Q) l.pieces := by
  intro l hl
  unfold validation at hl
  split at hl
  · rename_i value hvalue
    cases hl
    have hexpr := allIn_validationExpr hlibrary hp.property hp.types value hvalue
    have htype := classNames_localType hlibrary.names mode p.kind hp.types
    unfold Local.pieces
    cases hwritten : localType mode p.kind with
    | none => simp [hexpr, hp.result]
    | some t => simpa [hexpr, hp.result] using htype t hwritten
  · split at hl <;> cases hl

omit hlibrary in
/-- A result is the parameter itself, or the local of the property. -/
theorem allIn_resultOf : ∀ e ∈ resultOf mode p, AllIn (spoken Q) e.pieces := by
  intro e he
  unfold resultOf validation at he
  split at he
  · cases he
    simp [Expr.pieces, hp.result]
  · split at he <;> cases he
    simp [Expr.pieces, hp.property]

omit hlibrary in
theorem allIn_argumentOf : AllIn (spoken Q) (argumentOf mode p).pieces := by
  unfold argumentOf
  split
  · rename_i result hresult
    have hpieces := allIn_resultOf hp mode result hresult
    simp [Argument.pieces, Expr.pieces, hp.property, hpieces]
  · simp [Argument.pieces, Expr.pieces, hp.property]

omit hlibrary in
theorem in_failureCaseOf : ∀ c ∈ failureCaseOf mode p, c.In (spoken Q) := by
  intro c hc
  obtain ⟨result, hresult, rfl⟩ := Option.map_eq_some_iff.1 hc
  have hpieces := allIn_resultOf hp mode result hresult
  exact ⟨hpieces, hp.variant, by simpa [Expr.pieces] using hpieces⟩

omit hp

/-- What a factory makes and fails with is allowed. -/
structure FactoryTarget.In (Q : Role → String → Prop) (t : FactoryTarget) : Prop where
  receiver : ∀ r ∈ t.receiver,
    AllIn (spoken Q) (r.pieces : List (Piece TypeName TypeName))
  constructed : ∀ n ∈ t.constructed.classNames, SegmentsIn Q n
  variants : ∀ n ∈ t.variants.classNames, SegmentsIn Q n
  union : ∀ n ∈ t.union.classNames, SegmentsIn Q n

/-- A factory of properties keeps to what they bring in. -/
theorem factory_in {t : FactoryTarget} (ht : FactoryTarget.In Q t) {name : String}
    (hname : Q .function name) {properties : List Property}
    (hproperties : ∀ p ∈ properties, Supplied Q p) :
    (factory t name properties).In (spoken Q) where
  receiver := ht.receiver
  name := hname
  parameters := by
    refine List.forall_mem_map.2 fun p hp => ?_
    have htype := classNames_inputType hlibrary.names t.mode p.kind (hproperties p hp).types
    simpa [Parameter.pieces, (hproperties p hp).property] using htype
  result := classNames_either hlibrary.names (classNames_nonEmptyList hlibrary.names ht.union)
    ht.constructed
  either := hlibrary.either
  locals := by
    intro l hl
    obtain ⟨p, hp, hlocal⟩ := List.mem_filterMap.1 hl
    exact allIn_local hlibrary (hproperties p hp) t.mode l hlocal
  constructed := ht.constructed _ t.constructed.canonicalName_mem_classNames
  arguments := List.forall_mem_map.2 fun p hp => allIn_argumentOf (hproperties p hp) t.mode
  failure := by
    intro b hb
    have hb' : failureBranch t properties = some b := hb
    unfold failureBranch at hb'
    split at hb'
    · cases hb'
    · cases hb'
      refine ⟨fun c hc => ?_, ht.variants _ t.variants.canonicalName_mem_classNames, ht.union,
        fun c hc => ?_⟩
      · obtain ⟨p, hp, hcondition⟩ := List.mem_filterMap.1 hc
        obtain ⟨result, hresult, rfl⟩ := Option.map_eq_some_iff.1 hcondition
        exact allIn_resultOf (hproperties p hp) t.mode result hresult
      · obtain ⟨p, hp, hcase⟩ := List.mem_filterMap.1 hc
        exact in_failureCaseOf (hproperties p hp) t.mode c hcase

end Factories

end Generation

/-! ### Models -/

namespace Generation

variable {Q : Role → String → Prop}

/-- A template takes a property under its name, and with no other classes. -/
theorem supplied_of_mem_apply {t : ValidationTemplate} {properties : List Property}
    (h : ∀ p ∈ properties, Supplied Q p) : ∀ p ∈ t.apply properties, Supplied Q p := by
  refine List.forall_mem_map.2 fun p hp => ?_
  have hsupplied := h p hp
  split
  · refine ⟨hsupplied.property, hsupplied.result, hsupplied.variant, ?_⟩
    have htypes := hsupplied.types
    show ∀ n ∈ p.kind.prevalidated.typeNames, SegmentsIn Q n
    cases hkind : p.kind with
    | value v =>
      rw [hkind] at htypes
      simpa [PropertyKind.prevalidated, PropertyKind.typeNames, PropertyKind.typeNamesOfList,
        ValidatedValue.wrapperType] using (classNames_value htypes).1
    | _ =>
      rw [hkind] at htypes
      exact htypes
  · exact hsupplied

end Generation

namespace Model

open Generation (LibraryIn Supplied)

variable {m : Model} {option : String}

theorem segmentsIn_of_mem {name : String} (h : name ∈ m.typeNames) :
    SegmentsIn m.Supplies name :=
  fun _ hs => .ofClass h hs

theorem library (m : Model) : LibraryIn m.Supplies where
  names _ hn := segmentsIn_of_mem (List.mem_append_left _ hn)
  element := .element

theorem supplied {p : Property} (hp : p ∈ m.properties) : Supplied m.Supplies p where
  property := .property hp
  result := .result hp
  variant := .variant hp
  types n hn := by
    refine segmentsIn_of_mem (List.mem_append_right _ (List.mem_append_right _ ?_))
    exact List.mem_flatMap.2 ⟨p, hp, hn⟩

theorem supplied_of_mem_propertiesIn (mode : Generation.Mode) :
    ∀ p ∈ m.propertiesIn mode, Supplied m.Supplies p := by
  intro p hp
  cases mode with
  | model => exact supplied hp
  | params => exact supplied (List.mem_of_mem_filter hp)

theorem segmentsIn_typeNames : ∀ n ∈ m.names.typeNames, SegmentsIn m.Supplies n :=
  fun _ hn => segmentsIn_of_mem (List.mem_append_right _ (List.mem_append_left _ hn))

theorem classNames_model : ∀ n ∈ m.names.model.classNames, SegmentsIn m.Supplies n :=
  fun _ hn => segmentsIn_typeNames _ (m.names.classNames_model_subset hn)

theorem classNames_params : ∀ n ∈ m.names.params.classNames, SegmentsIn m.Supplies n :=
  fun _ hn => segmentsIn_typeNames _ (m.names.classNames_params_subset hn)

theorem classNames_fieldFailure : ∀ n ∈ m.names.fieldFailure.classNames, SegmentsIn m.Supplies n :=
  fun _ hn => segmentsIn_typeNames _ (m.names.classNames_fieldFailure_subset hn)

theorem classNames_requiredFieldFailure :
    ∀ n ∈ m.names.requiredFieldFailure.classNames, SegmentsIn m.Supplies n :=
  fun _ hn => segmentsIn_typeNames _ (m.names.classNames_requiredFieldFailure_subset hn)

theorem segmentsIn_required {t : TypeName} (h : m.required? = some t) :
    SegmentsIn m.Supplies t.canonicalName := by
  unfold required? at h
  split at h
  · cases h
    exact classNames_requiredFieldFailure _ (TypeName.canonicalName_mem_classNames _)
  · cases h

theorem failureUnion_in (m : Model) : m.failureUnion.In (spoken m.Supplies) where
  name := classNames_fieldFailure _ (TypeName.canonicalName_mem_classNames _)
  variants := by
    intro v hv
    obtain ⟨p, hp, hvariant⟩ := List.mem_filterMap.1 hv
    obtain ⟨payload, hpayload, rfl⟩ := Option.map_eq_some_iff.1 hvariant
    have hsupplied := supplied hp
    have htypes := Generation.classNames_failurePayload m.library.names p.kind hsupplied.types
      payload hpayload
    have hfieldFailure : SegmentsIn m.Supplies m.names.fieldFailure.canonicalName :=
      classNames_fieldFailure _ (TypeName.canonicalName_mem_classNames _)
    -- the variant of an external property is none of the required ones
    have hparent : SegmentsIn m.Supplies (if p.external then m.names.fieldFailure
        else m.required?.getD m.names.fieldFailure).canonicalName := by
      split
      · exact hfieldFailure
      · cases hrequired : m.required? with
        | none => exact hfieldFailure
        | some t => exact segmentsIn_required hrequired
    simpa [Variant.pieces, hsupplied.variant, hparent] using htypes
  required := fun _ ht => segmentsIn_required ht

theorem factoryTarget_in (m : Model) (mode : Generation.Mode) :
    Generation.FactoryTarget.In m.Supplies (m.factoryTarget mode) := by
  cases mode with
  | model => exact ⟨nofun, classNames_model, classNames_fieldFailure, classNames_fieldFailure⟩
  | params =>
    exact ⟨nofun, classNames_params, classNames_fieldFailure, classNames_requiredFieldFailure⟩

theorem dataClass_in (m : Model) (mode : Generation.Mode) :
    (m.dataClass mode).In (spoken m.Supplies) where
  name := (m.factoryTarget_in mode).constructed _ (TypeName.canonicalName_mem_classNames _)
  fields := by
    refine List.forall_mem_map.2 fun p hp => ?_
    have hsupplied := supplied_of_mem_propertiesIn mode p hp
    have htype := Generation.classNames_fieldType m.library.names mode p.kind hsupplied.types
    simpa [Parameter.pieces, hsupplied.property] using htype
  factories := by
    have htarget := m.factoryTarget_in mode
    have hproperties := supplied_of_mem_propertiesIn (m := m) mode
    refine List.forall_mem_cons.2 ⟨?_, List.forall_mem_map.2 fun t ht => ?_⟩
    · exact Generation.factory_in m.library htarget .factory hproperties
    · have hname : m.Supplies .function t.function := .template (List.mem_of_mem_filter ht)
      exact Generation.factory_in m.library htarget hname
        (Generation.supplied_of_mem_apply hproperties)

theorem stepSource_in {p : Property} (hp : Supplied m.Supplies p) :
    AllIn (spoken m.Supplies) (stepSource p).pieces := by
  have hname := hp.property
  have hsome := m.library.some
  unfold stepSource
  split
  · split
    · split
      · simp [Expr.pieces, hname, hsome]
      · simp [Expr.pieces, hname]
    · simp [Expr.pieces, hname]
  · simp [Expr.pieces, hname]

theorem buildSteps_in {properties : List Property}
    (h : ∀ p ∈ properties, Supplied m.Supplies p) :
    ∀ s ∈ buildSteps properties, BuildStep.In (spoken m.Supplies) s := by
  induction properties with
  | nil => exact nofun
  | cons p properties ih =>
    obtain ⟨hp, hproperties⟩ := List.forall_mem_cons.1 h
    exact List.forall_mem_cons.2 ⟨⟨hp.property, stepSource_in hp⟩, ih hproperties⟩

theorem builder_in {builder : Builder TypeName TypeName} (h : m.builder? = some builder) :
    builder.In (spoken m.Supplies) := by
  obtain ⟨name, hname, rfl⟩ := Option.map_eq_some_iff.1 h
  have hproperties : ∀ p ∈ m.paramsProperties, Supplied m.Supplies p :=
    supplied_of_mem_propertiesIn .params
  refine ⟨?_, ?_, classNames_params _ (TypeName.canonicalName_mem_classNames _),
    Generation.classNames_option m.library.names classNames_params, ?_, ?_⟩
  · have hclass := TypeName.canonicalName_mem_classNames name
    exact segmentsIn_typeNames _ (ModelNames.classNames_builder_subset hname hclass)
  · refine List.forall_mem_map.2 fun p hp => ?_
    have hsupplied := hproperties p hp
    have htype := Generation.classNames_option m.library.names
      (Generation.classNames_builderType m.library.names p.kind hsupplied.types)
    simpa [Parameter.pieces, hsupplied.property] using htype
  · show m.buildBody.In (spoken m.Supplies)
    unfold buildBody
    split
    · exact m.library.some
    · refine ⟨buildSteps_in hproperties, List.forall_mem_map.2 fun p hp => ?_⟩
      have hname := (hproperties p hp).property
      simp [Argument.pieces, Expr.pieces, hname]
  · intro c hc
    dsimp only at hc
    split at hc
    · cases hc
    · cases hc
      exact m.library.none

/-- The companion of the class is allowed as a receiver. -/
theorem receiver_in {companion : String} (h : m.target = .validatable companion) :
    AllIn (spoken m.Supplies)
      ((⟨m.names.model, companion⟩ : Receiver TypeName).pieces :
        List (Piece TypeName TypeName)) := by
  have howner := classNames_model (m := m) _ (TypeName.canonicalName_mem_classNames _)
  have hcompanion : m.Supplies .companion companion := .companion h
  simp [Receiver.pieces, howner, hcompanion]

theorem companionOf_in {companion : String} (h : m.target = .validatable companion) :
    (m.companionOf companion).In (spoken m.Supplies) := by
  refine Generation.factory_in m.library ⟨?_, classNames_model, classNames_fieldFailure,
    classNames_fieldFailure⟩ .factory fun p hp => supplied hp
  rintro _ ⟨⟩
  exact receiver_in h

theorem companionOnly_in {companion : String} (h : m.target = .validatable companion)
    {only : OnlyExtension TypeName TypeName}
    (honly : m.companionOnly? companion option = some only) :
    only.In (spoken m.Supplies) := by
  unfold companionOnly? at honly
  split at honly
  · cases honly
    refine ⟨receiver_in h, m.library.none, List.forall_mem_map.2 fun p hp => ?_⟩
    have hsupplied := supplied hp
    exact ⟨hsupplied.property,
      Generation.classNames_fieldType m.library.names .model p.kind hsupplied.types⟩
  · cases honly

/-- What the files of a model declare keeps to what the model supplies. -/
theorem content_in {files : List Kotlin.File} (h : m.files option = .ok files) :
    ∀ f ∈ files, f.package = m.names.package ∧ f.content.In (spoken m.Supplies) := by
  unfold Model.files at h
  split at h
  · split at h
    · cases h
    · rename_i builder hbuilder
      cases h
      simp only [List.forall_mem_cons]
      exact ⟨⟨rfl, m.failureUnion_in⟩, ⟨rfl, m.dataClass_in .model⟩, ⟨rfl, m.dataClass_in .params⟩,
        ⟨rfl, builder_in hbuilder⟩, nofun⟩
  · rename_i companion htarget
    cases h
    rw [List.forall_mem_cons, List.forall_mem_cons]
    refine ⟨⟨rfl, m.failureUnion_in⟩, ⟨rfl, companionOf_in htarget⟩, ?_⟩
    split
    · rename_i only honly
      rw [List.forall_mem_cons]
      exact ⟨⟨rfl, companionOnly_in htarget honly⟩, nofun⟩
    · exact nofun

/-- **Every name in a file is one that the model supplies.**  This is so of every generated file,
and each name is supplied as what it is written for. -/
theorem supplies_of_mem_words {files : List Kotlin.File} (h : m.files option = .ok files)
    {f : Kotlin.File} (hf : f ∈ files) : WordsIn m.Supplies f.words := by
  obtain ⟨hpackage, hcontent⟩ := content_in h f hf
  refine File.wordsIn_words m.library.members (fun s hs => ?_) hcontent
  rw [hpackage] at hs
  exact .package hs

end Model

end ModelForge
