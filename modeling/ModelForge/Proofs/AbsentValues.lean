/-
Absence never fails, and every failing element is reported.

A property may be null, an empty option, an option of null, or a list with nulls among its
elements, in every combination that its type allows.  The generated code decides each of them
with safe calls and fallbacks of its own.

* `Value.IsOf` — the values of a type, from those that belong to the classes that are no results,
  options or lists;
* `runtime` — the functions of the companions that the generated code calls, over what each of
  them makes of one raw value that is not null;
* `PropertyKind.Outcome` — what a validation should give: null and the empty option are
  successes, an option has the outcome of its content, and a list fails with the failures of
  all elements that fail.

The main statement is `Generation.outcome_of_isOf`: on every value of the type that a factory
takes, the code that is generated for a property gives its outcome.
-/
import ModelForge.Proofs.FactoryOutcome

namespace ModelForge

open Kotlin Generation

variable {α : Type}

/-! ### Values of a type -/

/-- What is known of the values of a type: of results, options and lists what they hold. -/
inductive Shape
  | either (failure success : TypeName)
  | option (content : TypeName)
  | list (element : TypeName)
  | nonEmptyList (element : TypeName)
  | other

/-- The shape of the values of a type that are not null. -/
def TypeName.shape (t : TypeName) : Shape :=
  match t.package, t.simpleNames, t.arguments with
  | "arrow.core", ["Either"], [some failure, some success] => .either failure success
  | "arrow.core", ["Option"], [some content] => .option content
  | "kotlin.collections", ["List"], [some element] => .list element
  | "arrow.core", ["Nel"], [some element] => .nonEmptyList element
  | _, _, _ => .other

/-- The value is one of the type. Of a class that is not one of results, options or lists these
are the values that belong to it. -/
inductive Kotlin.Value.IsOf (belongs : Value α → TypeName → Prop) : Value α → TypeName → Prop
  | null {t : TypeName} (h : t.nullable = true) : IsOf belongs .null t
  | left {t f s : TypeName} {v : Value α} (ht : t.shape = .either f s) (hv : IsOf belongs v f) :
    IsOf belongs (.left v) t
  | right {t f s : TypeName} {v : Value α} (ht : t.shape = .either f s) (hv : IsOf belongs v s) :
    IsOf belongs (.right v) t
  | absent {t u : TypeName} (ht : t.shape = .option u) : IsOf belongs .absent t
  | present {t u : TypeName} {v : Value α} (ht : t.shape = .option u) (hv : IsOf belongs v u) :
    IsOf belongs (.present v) t
  | list {t u : TypeName} {vs : List (Value α)} (ht : t.shape = .list u)
    (hvs : ∀ v ∈ vs, IsOf belongs v u) : IsOf belongs (.list vs) t
  | nonEmptyList {t u : TypeName} {vs : List (Value α)} (ht : t.shape = .nonEmptyList u)
    (hne : vs ≠ []) (hvs : ∀ v ∈ vs, IsOf belongs v u) : IsOf belongs (.list vs) t
  | other {t : TypeName} {v : Value α} (ht : t.shape = .other) (hne : v ≠ .null)
    (hv : belongs v (t.withNullable false)) : IsOf belongs v t

/-! ### The functions of companions -/

/-- What a companion makes of a raw value that may be null. -/
def ofNullable (of : Value α → Except (Value α) (Value α)) : Value α → Except (Value α) (Value α)
  | .null => .ok .null
  | v => of v

/-- What a companion makes of an option. -/
def ofOption (of : Value α → Except (Value α) (Value α)) : Value α → Except (Value α) (Value α)
  | .present v => (of v).map .present
  | v => .ok v

/-- The companions, where `of` is what each of them makes of one raw value. Functions for one
value and for an option have the same name, and the type of the argument tells which of them
is called. -/
def runtime (of : String → Value α → Except (Value α) (Value α)) (takesOption : Bool) :
    Library α where
  make wrapper nullable :=
    let one := if nullable then ofNullable (of wrapper) else of wrapper
    if takesOption then ofOption one else one
  build v := v

/-! ### Outcomes -/

namespace PropertyKind

/-- Whether the companion of a kind's validated value is given an option. -/
def takesOption : PropertyKind → Bool
  | optionalValue .. => true
  | _ => false

/-- How the elements of a property are held. -/
inductive Holding
  | single
  | option
  | list
deriving DecidableEq

/-- How a kind holds its elements. -/
def holding : PropertyKind → Holding
  | standard .. | value _ | model _ => .single
  | optionalValue .. | optionalModel .. => .option
  | modelList .. | modelNonEmptyList .. => .list

/-- What a result says by itself. -/
def passedResult : Value α → Except (Value α) (Value α)
  | .left e => .error e
  | .right v => .ok v
  | v => .ok v

/-- What one element that is not null comes to: a raw value by its companion, the result of a
nested model's factory by itself. -/
def elementOutcome (of : String → Value α → Except (Value α) (Value α)) :
    PropertyKind → Value α → Except (Value α) (Value α)
  | value w | optionalValue w _ => of w.wrapper.canonicalName
  | _ => passedResult

/-- The outcome of a property's validation for a value. -/
inductive Outcome (of : String → Value α → Except (Value α) (Value α)) (kind : PropertyKind) :
    Value α → Except (Value α) (Value α) → Prop
  | null : Outcome of kind .null (.ok .null)
  | single {v : Value α} (hkind : kind.holding = .single) (hv : v ≠ .null) :
    Outcome of kind v (kind.elementOutcome of v)
  | absent (hkind : kind.holding = .option) : Outcome of kind .absent (.ok .absent)
  | presentNull (hkind : kind.holding = .option) :
    Outcome of kind (.present .null) (.ok (.present .null))
  | present {v : Value α} (hkind : kind.holding = .option) (hv : v ≠ .null) :
    Outcome of kind (.present v) ((kind.elementOutcome of v).map .present)
  /-- no element fails: all contents, null for null -/
  | succeed {vs contents : List (Value α)} (hkind : kind.holding = .list)
    (h : vs.map (ofNullable (kind.elementOutcome of)) = contents.map .ok) :
    Outcome of kind (.list vs) (.ok (.list contents))
  /-- some element fails: the failures of those that fail -/
  | fail {vs : List (Value α)} (hkind : kind.holding = .list)
    (h : ∃ v ∈ vs, ∃ e, ofNullable (kind.elementOutcome of) v = .error e) :
    Outcome of kind (.list vs)
      (.error (.list (vs.filterMap fun v => failure? (ofNullable (kind.elementOutcome of) v))))

/-- A value has one outcome. -/
theorem Outcome.unique {of : String → Value α → Except (Value α) (Value α)}
    {kind : PropertyKind} {v : Value α} {o o' : Except (Value α) (Value α)}
    (h : kind.Outcome of v o) (h' : kind.Outcome of v o') : o = o' := by
  -- a list whose elements all succeed has no failure
  have hclash : ∀ {vs contents : List (Value α)},
      vs.map (ofNullable (kind.elementOutcome of)) = contents.map .ok →
        ¬ ∃ v ∈ vs, ∃ e, ofNullable (kind.elementOutcome of) v = .error e := by
    rintro vs contents hall ⟨v, hv, e, he⟩
    have hmem := List.mem_map_of_mem (f := ofNullable (kind.elementOutcome of)) hv
    rw [hall, he] at hmem
    obtain ⟨_, -, hok⟩ := List.mem_map.1 hmem
    cases hok
  cases h with
  | succeed hkind hall =>
    cases h' with
    | succeed _ hall' =>
      rw [hall] at hall'
      rw [(List.map_inj_right fun _ _ => Except.ok.inj).1 hall']
    | fail _ hfail => exact absurd hfail (hclash hall)
    | single hkind' =>
      rw [hkind] at hkind'
      cases hkind'
  | fail hkind hfail =>
    cases h' with
    | succeed _ hall => exact absurd hfail (hclash hall)
    | fail => rfl
    | single hkind' =>
      rw [hkind] at hkind'
      cases hkind'
  | _ => cases h' <;> simp_all

end PropertyKind

/-! ### Values of input types -/

namespace Kotlin.Value.IsOf

variable {belongs : Value α → TypeName → Prop} {v : Value α} {t u : TypeName} {nullable : Bool}

theorem nullable_of_null (h : IsOf belongs .null t) : t.nullable = true := by
  cases h with
  | null h => exact h
  | other _ hne _ => exact absurd rfl hne

theorem option_cases (h : IsOf belongs v ((option t).withNullable nullable)) :
    v = .null ∧ nullable = true ∨ v = .absent ∨
      ∃ content, v = .present content ∧ IsOf belongs content t := by
  have hshape : ((option t).withNullable nullable).shape = .option t := rfl
  cases h with
  | null h => exact .inl ⟨rfl, h⟩
  | absent => exact .inr (.inl rfl)
  | present ht hv =>
    rw [hshape] at ht
    cases ht
    exact .inr (.inr ⟨_, rfl, hv⟩)
  | _ ht =>
    rw [hshape] at ht
    cases ht

theorem list_cases (ht : t.shape = .list u ∨ t.shape = .nonEmptyList u) (h : IsOf belongs v t) :
    v = .null ∧ t.nullable = true ∨
      ∃ vs, v = .list vs ∧ ∀ element ∈ vs, IsOf belongs element u := by
  cases h with
  | null h => exact .inl ⟨rfl, h⟩
  | list h hvs =>
    rw [h] at ht
    rcases ht with ht | ht <;> cases ht
    exact .inr ⟨_, rfl, hvs⟩
  | nonEmptyList h _ hvs =>
    rw [h] at ht
    rcases ht with ht | ht <;> cases ht
    exact .inr ⟨_, rfl, hvs⟩
  | _ h =>
    rw [h] at ht
    rcases ht with ht | ht <;> cases ht

end Kotlin.Value.IsOf

namespace Generation

open PropertyKind

variable {belongs : Value α → TypeName → Prop}
  {of : String → Value α → Except (Value α) (Value α)} {mode : Mode}

/-! ### One element -/

theorem ofNullable_of_ne_null {f : Value α → Except (Value α) (Value α)} {v : Value α}
    (hv : v ≠ .null) : ofNullable f v = f v := by
  cases v with
  | null => exact absurd rfl hv
  | _ => rfl

/-- The function that is called for a raw value, be it nullable or not. -/
theorem make_of_isOf (f : Value α → Except (Value α) (Value α)) {w : ValidatedValue}
    {v : Value α} (h : v.IsOf belongs w.valueType) :
    (if w.nullable then ofNullable f else f) v = ofNullable f v := by
  cases hnullable : w.nullable with
  | true => rfl
  | false =>
    have hv : v ≠ .null := by
      rintro rfl
      have htrue : w.nullable = true := h.nullable_of_null
      rw [hnullable] at htrue
      cases htrue
    exact (ofNullable_of_ne_null hv).symm

/-- The result that is passed for a nested model. -/
theorem result_of_isOf {m : NestedModel} {v : Value α} (h : v.IsOf belongs (nestedInput m mode)) :
    m.result v = some (ofNullable passedResult v) := by
  have hshape : (nestedInput m mode).shape =
      .either (nonEmptyList (nestedFailure m mode)) (nestedClass m mode) := rfl
  cases h with
  | null h =>
    have hnullable : m.nullable = true := h
    rw [NestedModel.result, hnullable]
    rfl
  | left => rfl
  | right => rfl
  | _ ht =>
    rw [hshape] at ht
    cases ht

/-! ### Lists -/

theorem mapM_result_of_isOf {m : NestedModel} {vs : List (Value α)}
    (h : ∀ v ∈ vs, v.IsOf belongs (nestedInput m mode)) :
    vs.mapM m.result = some (vs.map (ofNullable passedResult)) := by
  induction vs with
  | nil => rfl
  | cons v vs ih =>
    obtain ⟨hv, hvs⟩ := List.forall_mem_cons.1 h
    rw [List.mapM_cons, result_of_isOf hv, ih hvs]
    rfl

theorem eq_map_ok_of_no_failure {results : List (Except (Value α) (Value α))}
    (h : results.filterMap failure? = []) :
    results = (results.filterMap Except.toOption).map .ok := by
  induction results with
  | nil => rfl
  | cons r results ih =>
    cases r with
    | error e => cases h
    | ok v => exact congrArg (Except.ok v :: ·) (ih h)

/-- Gathered results are all contents, or the failures of those that fail. -/
theorem outcome_gatheredResult (of : String → Value α → Except (Value α) (Value α))
    {kind : PropertyKind} (hkind : kind.holding = .list) (vs : List (Value α)) :
    kind.Outcome of (.list vs)
      (gatheredResult (vs.map (ofNullable (kind.elementOutcome of)))) := by
  have hfailures := List.filterMap_map (f := ofNullable (kind.elementOutcome of))
    (g := failure?) (l := vs)
  unfold gatheredResult
  cases h : (vs.map (ofNullable (kind.elementOutcome of))).filterMap failure? with
  | nil => exact .succeed hkind (eq_map_ok_of_no_failure h)
  | cons e failures =>
    have hfails : ∃ v ∈ vs, ∃ e, ofNullable (kind.elementOutcome of) v = .error e := by
      have he : e ∈ (vs.map (ofNullable (kind.elementOutcome of))).filterMap failure? := by
        rw [h]
        exact List.mem_cons_self
      rw [hfailures] at he
      obtain ⟨v, hv, hfailure⟩ := List.mem_filterMap.1 he
      refine ⟨v, hv, e, ?_⟩
      cases hresult : ofNullable (kind.elementOutcome of) v with
      | error e' =>
        rw [Function.comp, hresult] at hfailure
        obtain rfl := Option.some.inj hfailure
        rfl
      | ok content =>
        rw [Function.comp, hresult] at hfailure
        cases hfailure
    show kind.Outcome of (.list vs) (.error (.list (e :: failures)))
    rw [← h, hfailures]
    exact .fail hkind hfails

/-! ### Properties -/

/-- A list of nested models. -/
theorem result_list {m : NestedModel} {kind : PropertyKind} {t : TypeName} {v : Value α}
    {nullable : Bool} (ht : t.shape = .list (nestedInput m mode) ∨
      t.shape = .nonEmptyList (nestedInput m mode))
    (hnullable : t.nullable = nullable) (hkind : kind.holding = .list)
    (helement : kind.elementOutcome of = passedResult) (h : v.IsOf belongs t) :
    ∃ o, resultOrNull nullable (listResult m.result) v = some o ∧ kind.Outcome of v o := by
  rcases h.list_cases ht with ⟨rfl, hnull⟩ | ⟨vs, rfl, hvs⟩
  · rw [hnullable] at hnull
    subst hnull
    exact ⟨_, rfl, .null⟩
  · have houtcome := outcome_gatheredResult of hkind vs
    rw [helement] at houtcome
    refine ⟨_, ?_, houtcome⟩
    show (vs.mapM m.result).map gatheredResult = _
    rw [mapM_result_of_isOf hvs]
    rfl

/-- On every value of the type that a factory takes, the validation of a property has its
outcome. -/
theorem result_of_isOf_inputType (of : String → Value α → Except (Value α) (Value α))
    {kind : PropertyKind} (hkind : kind.isStandard = false)
    {v : Value α} (h : v.IsOf belongs (inputType mode kind)) :
    ∃ o, kind.result (runtime of kind.takesOption) v = some o ∧ kind.Outcome of v o := by
  cases kind with
  | standard type arguments => cases hkind
  | value w =>
    refine ⟨ofNullable (of w.wrapper.canonicalName) v, congrArg some (make_of_isOf _ h), ?_⟩
    cases v with
    | null => exact .null
    | _ => exact .single rfl nofun
  | optionalValue w nullable =>
    rcases h.option_cases with ⟨rfl, rfl⟩ | rfl | ⟨content, rfl, hcontent⟩
    · exact ⟨_, rfl, .null⟩
    · exact ⟨_, rfl, .absent rfl⟩
    · refine ⟨(ofNullable (of w.wrapper.canonicalName) content).map .present, ?_, ?_⟩
      · exact congrArg (fun r => some (Except.map Value.present r)) (make_of_isOf _ hcontent)
      · cases content with
        | null => exact .presentNull rfl
        | _ => exact .present rfl nofun
  | model m =>
    refine ⟨_, result_of_isOf h, ?_⟩
    cases v with
    | null => exact .null
    | _ => exact .single rfl nofun
  | optionalModel m nullable =>
    rcases h.option_cases with ⟨rfl, rfl⟩ | rfl | ⟨content, rfl, hcontent⟩
    · exact ⟨_, rfl, .null⟩
    · exact ⟨_, rfl, .absent rfl⟩
    · refine ⟨(ofNullable passedResult content).map .present, ?_, ?_⟩
      · exact congrArg (Option.map (Except.map Value.present)) (result_of_isOf hcontent)
      · cases content with
        | null => exact .presentNull rfl
        | _ => exact .present rfl nofun
  | modelList m nullable => exact result_list (.inl rfl) rfl rfl rfl h
  | modelNonEmptyList m nullable => exact result_list (.inr rfl) rfl rfl rfl h

/-- Absence never fails, and every failing element is reported: for every value of the type
that a factory takes for a property, the local that is generated for it is the result with the
property's outcome. A property without local is passed as this result. -/
theorem outcome_of_isOf (of : String → Value α → Except (Value α) (Value α)) (mode : Mode)
    {p : Property} (hkind : p.kind.isStandard = false) {v : Value α}
    (hv : v.IsOf belongs (inputType mode p.kind)) {s : Variables α} (hs : s.get p.name = .ok v) :
    ∃ o, p.kind.Outcome of v o ∧
      (∀ l, (validation mode p).local? = some l →
        l.value.eval (runtime of p.kind.takesOption) s = .ok (.ofResult o)) ∧
      ((validation mode p).local? = none →
        resultOf mode p = some (.parameter p.name) ∧ v = .ofResult o) := by
  obtain ⟨o, hresult, houtcome⟩ := result_of_isOf_inputType of hkind hv
  cases he : validationExpr p.name p.kind with
  | some e =>
    rw [validation_of_some he]
    refine ⟨o, houtcome, fun l hl => ?_, fun hnone => ?_⟩
    · obtain rfl := Option.some.inj hl
      exact eval_validationExpr he hs hresult
    · cases hnone
  | none =>
    have hvalidation : validation mode p = .parameter := by
      rw [validation_of_none he, hkind]
      rfl
    rw [resultOf, hvalidation]
    refine ⟨o, houtcome, fun l hl => ?_, fun _ => ⟨rfl, ?_⟩⟩
    · cases hl
    · exact eq_ofResult_of_validationExpr_eq_none he hkind hresult

/-! ### A list with failures and a null -/

namespace Sample

def offices : Property :=
  property "offices" (.modelList (nested true) true)

/-- Results of which the second is missing and the last two have failed. -/
def visited : Value Int :=
  .list [.right (.atom 1), .null, .left (.list [.atom 2]), .left (.list [.atom 3, .atom 4])]

/-- Numbers stand for addresses and for what is wrong with them. -/
def isNumber (v : Value Int) (_ : TypeName) : Prop :=
  ∃ n, v = .atom n

theorem isOf_visited (mode : Mode) : visited.IsOf isNumber (inputType mode offices.kind) := by
  have hatom : ∀ n, (Value.atom n).IsOf isNumber (nestedFailure (nested true) mode) := by
    intro n
    refine .other ?_ nofun ⟨n, rfl⟩
    cases mode <;> rfl
  have hclass : (Value.atom 1).IsOf isNumber (nestedClass (nested true) mode) := by
    refine .other ?_ nofun ⟨1, rfl⟩
    cases mode <;> rfl
  refine .list rfl ?_
  simp only [List.forall_mem_cons]
  refine ⟨.right rfl hclass, .null rfl, .left rfl ?_, .left rfl ?_, nofun⟩
  · exact .nonEmptyList rfl nofun (List.forall_mem_singleton.2 (hatom 2))
  · exact .nonEmptyList rfl nofun
      (List.forall_mem_cons.2 ⟨hatom 3, List.forall_mem_singleton.2 (hatom 4)⟩)

end Sample

theorem outcome_of_isOf_offices :
    Sample.offices.kind.isStandard = false ∧
    Sample.visited.IsOf Sample.isNumber (inputType .params Sample.offices.kind) ∧
    Variables.get [("offices", Sample.visited)] "offices" = .ok Sample.visited ∧
    ∃ o, Sample.offices.kind.Outcome (fun _ => .ok) Sample.visited o ∧
      ∀ l, (validation .params Sample.offices).local? = some l →
        l.value.eval (runtime (fun _ => .ok) false) [("offices", Sample.visited)] =
          .ok (.ofResult o) := by
  have hvisited := Sample.isOf_visited .params
  obtain ⟨o, houtcome, hlocal, -⟩ := outcome_of_isOf (fun _ => .ok) .params
    (p := Sample.offices) rfl hvisited (s := [("offices", Sample.visited)]) rfl
  exact ⟨rfl, hvisited, rfl, o, houtcome, hlocal⟩

end Generation

end ModelForge
