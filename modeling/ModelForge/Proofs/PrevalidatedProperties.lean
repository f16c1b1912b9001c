/-
What the factory of a validation template takes as it is.

The factory of a template is put together like `of`, for properties in which the values that the
template declares again are standard:

* `ValidationTemplate.takes` — a property is declared again, and it is a value or standard, so that
  the factory takes it the way it is stored;
* `ValidationTemplate.Treats` — what a factory makes of the properties: one that is taken is passed
  on without validation, and any other one is treated as in `of`;
* `Generation.treats_apply` — the factory of every template treats the properties so.

The statement about generated classes is `Model.factories_of_templates`.  A nested model, or an
option of a value, is not taken: `Model.nested_model_validated` is one that is declared again.
-/
import Mathlib.Data.List.Forall2
import ModelForge.Generation
import ModelForge.Proofs.FactoryOutcome

namespace ModelForge

/-! ### Properties that are taken -/

namespace PropertyKind

/-- Whether a property that a template declares again is taken as it is stored. -/
def isTakenStored : PropertyKind → Bool
  | standard .. | value _ => true
  | _ => false

theorem isStandard_prevalidated (kind : PropertyKind) :
    kind.prevalidated.isStandard = kind.isTakenStored := by
  cases kind <;> rfl

theorem prevalidated_of_not_taken {kind : PropertyKind} (h : kind.isTakenStored = false) :
    kind.prevalidated = kind := by
  cases kind with
  | value v => cases h
  | _ => rfl

theorem inputType_prevalidated {kind : PropertyKind} (h : kind.isTakenStored = true)
    (mode : Generation.Mode) :
    Generation.inputType mode kind.prevalidated = Generation.fieldType mode kind := by
  cases kind with
  | standard type arguments => rfl
  | value v =>
    show Generation.fieldType mode (.standard v.wrapperType []) = v.wrapperType
    rw [Generation.fieldType]
  | _ => cases h

end PropertyKind

namespace ValidationTemplate

variable {t : ValidationTemplate} {p : Property} {properties : List Property}

/-- Whether the template's factory takes the property as it is stored. -/
def takes (t : ValidationTemplate) (p : Property) : Bool :=
  t.prevalidated.contains p.name && p.kind.isTakenStored

/-- The property as the template's factory has it. -/
def received (t : ValidationTemplate) (p : Property) : Property :=
  if t.prevalidated.contains p.name then { p with kind := p.kind.prevalidated } else p

theorem apply_eq_map (t : ValidationTemplate) (properties : List Property) :
    t.apply properties = properties.map t.received :=
  rfl

theorem name_received (t : ValidationTemplate) (p : Property) : (t.received p).name = p.name := by
  unfold received
  split <;> rfl

/-- What is made of the names of the properties is made of them as they stand. -/
theorem map_name_apply {β : Type} (f : String → β) (t : ValidationTemplate)
    (properties : List Property) :
    (t.apply properties).map (fun q => f q.name) = properties.map fun p => f p.name := by
  rw [t.apply_eq_map, List.map_map]
  exact List.map_congr_left fun p _ => congrArg f (t.name_received p)

theorem received_of_takes (h : t.takes p = true) :
    t.received p = { p with kind := p.kind.prevalidated } ∧ p.kind.isTakenStored = true := by
  obtain ⟨hnamed, hkind⟩ := Bool.and_eq_true_iff.1 h
  exact ⟨if_pos hnamed, hkind⟩

theorem received_of_not_takes (h : t.takes p = false) : t.received p = p := by
  unfold received
  split
  · rename_i hnamed
    rw [takes, hnamed, Bool.true_and] at h
    rw [PropertyKind.prevalidated_of_not_taken h]
  · rfl

theorem isStandard_received (h : t.takes p = true) : (t.received p).kind.isStandard = true := by
  obtain ⟨heq, hkind⟩ := received_of_takes h
  rw [heq]
  exact (p.kind.isStandard_prevalidated).trans hkind

/-- Only the names that are among the properties matter. -/
theorem apply_eq_of_contains {t' : ValidationTemplate}
    (h : ∀ p ∈ properties, t'.prevalidated.contains p.name = t.prevalidated.contains p.name) :
    t'.apply properties = t.apply properties := by
  refine List.map_congr_left fun p hp => ?_
  rw [h p hp]

end ValidationTemplate

namespace Generation

open Kotlin

/-! ### The parts of the factory -/

section

variable {t : ValidationTemplate} {p : Property} {mode : Mode}

theorem inputType_received (t : ValidationTemplate) (p : Property) (mode : Mode) :
    inputType mode (t.received p).kind =
      if t.takes p then fieldType mode p.kind else inputType mode p.kind := by
  cases h : t.takes p with
  | true =>
    obtain ⟨heq, hkind⟩ := ValidationTemplate.received_of_takes h
    rw [heq]
    exact PropertyKind.inputType_prevalidated hkind mode
  | false =>
    rw [ValidationTemplate.received_of_not_takes h]
    rfl

theorem argumentOf_received (t : ValidationTemplate) (p : Property) (mode : Mode) :
    argumentOf mode (t.received p) =
      if t.takes p then ⟨p.name, .parameter p.name⟩ else argumentOf mode p := by
  cases h : t.takes p with
  | true =>
    have hresult := (resultOf_eq_none_iff mode).2 (ValidationTemplate.isStandard_received h)
    rw [argumentOf, hresult, t.name_received]
    rfl
  | false =>
    rw [ValidationTemplate.received_of_not_takes h]
    rfl

theorem conditionOf_of_standard (h : p.kind.isStandard = true) : conditionOf mode p = none := by
  rw [conditionOf, (resultOf_eq_none_iff mode).2 h]
  rfl

theorem failureCaseOf_of_standard (h : p.kind.isStandard = true) : failureCaseOf mode p = none := by
  rw [failureCaseOf, (resultOf_eq_none_iff mode).2 h]
  rfl

/-- Whatever is made of properties that are not standard is made of those that are not taken. -/
theorem filterMap_apply {β : Type} {f : Property → Option β}
    (hf : ∀ p, p.kind.isStandard = true → f p = none) (t : ValidationTemplate)
    (properties : List Property) :
    (t.apply properties).filterMap f = (properties.filter fun p => !t.takes p).filterMap f := by
  rw [t.apply_eq_map, List.filterMap_map, List.filterMap_filter]
  refine List.filterMap_congr fun p _ => ?_
  cases h : t.takes p with
  | true => exact hf _ (ValidationTemplate.isStandard_received h)
  | false => exact congrArg f (ValidationTemplate.received_of_not_takes h)

end

end Generation

open Generation Kotlin

/-- What the factory of a template makes of the properties. -/
structure ValidationTemplate.Treats (t : ValidationTemplate) (target : FactoryTarget)
    (properties : List Property) (f : Factory TypeName TypeName) : Prop where
  name : f.name = t.function
  receiver : f.receiver = target.receiver
  result : f.result = either (nonEmptyList target.union) target.constructed
  either : f.either = eitherClass
  constructed : f.constructed = target.constructed
  /-- a property that is taken has its stored type -/
  parameters : f.parameters = properties.map fun p =>
    ⟨p.name, if t.takes p then fieldType target.mode p.kind else inputType target.mode p.kind⟩
  /-- and is passed straight on -/
  arguments : f.arguments = properties.map fun p =>
    if t.takes p then ⟨p.name, .parameter p.name⟩ else argumentOf target.mode p
  /-- and is not validated -/
  locals : f.locals = localsOf target.mode (properties.filter fun p => !t.takes p)
  /-- and does not fail -/
  failure : f.failure = failureBranch target (properties.filter fun p => !t.takes p)

namespace Generation

theorem treats_apply (target : FactoryTarget) (t : ValidationTemplate) (properties : List Property) :
    t.Treats target properties (factory target t.function (t.apply properties)) where
  name := rfl
  receiver := rfl
  result := rfl
  either := rfl
  constructed := rfl
  parameters := by
    show (t.apply properties).map _ = _
    rw [t.apply_eq_map, List.map_map]
    refine List.map_congr_left fun p _ => ?_
    show Parameter.mk (t.received p).name (inputType target.mode (t.received p).kind) = _
    rw [t.name_received, inputType_received]
  arguments := by
    show (t.apply properties).map _ = _
    rw [t.apply_eq_map, List.map_map]
    exact List.map_congr_left fun p _ => argumentOf_received t p target.mode
  locals := filterMap_apply (fun _ => local?_of_standard) t properties
  failure := by
    show failureBranch target (t.apply properties) = _
    rw [failureBranch, failureBranch, filterMap_apply (fun _ => failureCaseOf_of_standard),
      filterMap_apply (fun _ => conditionOf_of_standard)]

end Generation

/-! ### Generated classes -/

/-- **Properties that templates take validated.**  The companion of the model or of the params has
the factory `of` and one for each of its templates.  A property that the template declares again
and that is a value or standard is taken at its stored type, passed straight to the constructor, and
adds no failure; any other property is treated as in `of`, and all stand in the order in which they
stand there.  Of the names that are declared again only those of the properties count. -/
theorem Model.factories_of_templates (m : Model) (mode : Mode) :
    (∃ factories, (m.dataClass mode).factories =
        factory (m.factoryTarget mode) "of" (m.propertiesIn mode) :: factories ∧
      List.Forall₂ (fun t f => t.Treats (m.factoryTarget mode) (m.propertiesIn mode) f)
        (m.templatesIn mode) factories) ∧
    ∀ t t' : ValidationTemplate, t'.function = t.function →
      (∀ p ∈ m.propertiesIn mode, p.name ∈ t'.prevalidated ↔ p.name ∈ t.prevalidated) →
        factory (m.factoryTarget mode) t'.function (t'.apply (m.propertiesIn mode)) =
          factory (m.factoryTarget mode) t.function (t.apply (m.propertiesIn mode)) := by
  refine ⟨⟨_, rfl, ?_⟩, fun t t' hfunction hnames => ?_⟩
  · show List.Forall₂ _ _ (List.map _ _)
    rw [List.forall₂_map_right_iff]
    exact List.forall₂_same.2 fun t _ => treats_apply _ t _
  · have happly : t'.apply (m.propertiesIn mode) = t.apply (m.propertiesIn mode) := by
      refine ValidationTemplate.apply_eq_of_contains fun p hp => ?_
      rw [Bool.eq_iff_iff, List.contains_iff_mem, List.contains_iff_mem]
      exact hnames p hp
    rw [hfunction, happly]

/-! ### A trusted member

The factory is to take the age, which is a value, and the work, which is a nested model. -/

namespace Generation.Sample

def age : Property :=
  property "age" (.value (positive false))

def work : Property :=
  property "work" (.model (nested false))

def trusted : ValidationTemplate :=
  ⟨"t.MemberTemplate.Trusted", "trusted", .model, ["age", "work"]⟩

/-- Declares a name again that the model does not have. -/
def trustedNickname : ValidationTemplate :=
  { trusted with prevalidated := ["nickname", "age", "work"] }

def member : Model :=
  ⟨"t.MemberTemplate", .template "t" "Member", .template, [age, work], [trusted], none⟩

/-- The parameters of a factory as they are written, and the variants that it adds. -/
def signature (f : Factory TypeName TypeName) : List (String × String) × List String :=
  (f.parameters.map fun p => (p.name, p.type.display),
    f.failure.elim [] fun b => b.cases.map (·.variant))

end Generation.Sample

theorem Model.factories_of_templates_member :
    (∀ p ∈ Sample.member.propertiesIn .model,
      p.name ∈ Sample.trustedNickname.prevalidated ↔ p.name ∈ Sample.trusted.prevalidated) ∧
    (∃ f, (Sample.member.dataClass .model).factories =
        [factory (Sample.member.factoryTarget .model) "of" [Sample.age, Sample.work], f] ∧
      Sample.trusted.Treats (Sample.member.factoryTarget .model) [Sample.age, Sample.work] f) ∧
    Sample.trusted.takes Sample.age = true ∧ Sample.trusted.takes Sample.work = false ∧
    factory (Sample.member.factoryTarget .model) "trusted"
        (Sample.trustedNickname.apply [Sample.age, Sample.work]) =
      factory (Sample.member.factoryTarget .model) "trusted"
        (Sample.trusted.apply [Sample.age, Sample.work]) := by
  have hnames : ∀ p ∈ Sample.member.propertiesIn .model,
      p.name ∈ Sample.trustedNickname.prevalidated ↔ p.name ∈ Sample.trusted.prevalidated := by
    decide +kernel
  obtain ⟨⟨factories, heq, htreats⟩, hsame⟩ := Model.factories_of_templates Sample.member .model
  obtain ⟨f, rest, hf, hrest, rfl⟩ := List.forall₂_cons_left_iff.1 htreats
  obtain rfl := List.forall₂_nil_left_iff.1 hrest
  exact ⟨hnames, ⟨f, heq, hf⟩, by decide +kernel, by decide +kernel,
    hsame Sample.trusted Sample.trustedNickname rfl hnames⟩

/-- The work is declared again, and the template's factory takes and adds for it what `of` does: not
the type at which it is stored, but the result of its validation, and its failure. -/
theorem Model.nested_model_validated :
    "work" ∈ Sample.trusted.prevalidated ∧
    (fieldType .model Sample.work.kind).display = "t.Address" ∧
    (Sample.member.dataClass .model).factories.map Sample.signature =
      [([("age", "kotlin.Int"),
          ("work", "arrow.core.Either<arrow.core.Nel<t.AddressFieldFailure>, t.Address>")],
        ["Age", "Work"]),
      ([("age", "t.Positive"),
          ("work", "arrow.core.Either<arrow.core.Nel<t.AddressFieldFailure>, t.Address>")],
        ["Work"])] := by
  refine ⟨?_, ?_, ?_⟩ <;> decide +kernel

end ModelForge
