/-
What the validation of a property results in.

`PropertyKind.result` says what a property's validation gives for a passed value, without any
code: null and the empty option are successes where they are allowed, an option fails with its
content, and a list fails with the failures of all elements that fail.

* `eval_validationExpr` — the expression that is generated for a property has this result;
* `eq_ofResult_of_validationExpr_eq_none` — where none is generated for a property that is
  validated, the passed value is the result itself.
-/
import ModelForge.Proofs.Evaluation

namespace ModelForge

open Kotlin Generation

variable {α : Type}

/-! ### The result of a validation -/

/-- The result for a nested model: the passed result of its own factory, or null. -/
def NestedModel.result (m : NestedModel) : Value α → Option (Except (Value α) (Value α))
  | .left e => some (.error e)
  | .right v => some (.ok v)
  | .null => if m.nullable then some (.ok .null) else none
  | _ => none

/-- The failure, if there is one. -/
def failure? {ε β : Type} : Except ε β → Option ε
  | .error e => some e
  | .ok _ => none

/-- The result for a list: all failures in the order of the list, or all successes if there
is no failure. -/
def gatheredResult (results : List (Except (Value α) (Value α))) : Except (Value α) (Value α) :=
  match results.filterMap failure? with
  | [] => .ok (.list (results.filterMap Except.toOption))
  | failures => .error (.list failures)

/-- The result for an option: the empty option, or the result for its content. -/
def optionResult (result : Value α → Option (Except (Value α) (Value α))) :
    Value α → Option (Except (Value α) (Value α))
  | .absent => some (.ok .absent)
  | .present v => (result v).map (Except.map .present)
  | _ => none

/-- The result for a list, from those for its elements. -/
def listResult (result : Value α → Option (Except (Value α) (Value α))) :
    Value α → Option (Except (Value α) (Value α))
  | .list vs => (vs.mapM result).map gatheredResult
  | _ => none

/-- The result for a value that may be null. -/
def resultOrNull (nullable : Bool) (result : Value α → Option (Except (Value α) (Value α))) :
    Value α → Option (Except (Value α) (Value α))
  | .null => if nullable then some (.ok .null) else result .null
  | v => result v

/-- The result of a property's validation for a passed value, `none` for a value that the
property cannot be given. -/
def PropertyKind.result (lib : Library α) :
    PropertyKind → Value α → Option (Except (Value α) (Value α))
  | .standard .., v => some (.ok v)
  | .value w, v => some (lib.make w.wrapper.canonicalName w.nullable v)
  | .optionalValue w nullable, v =>
    resultOrNull nullable (fun v => some (lib.make w.wrapper.canonicalName w.nullable v)) v
  | .model m, v => m.result v
  | .optionalModel m nullable, v => resultOrNull nullable (optionResult m.result) v
  | .modelList m nullable, v | .modelNonEmptyList m nullable, v =>
    resultOrNull nullable (listResult m.result) v

namespace Generation

variable {lib : Library α} {s : Variables α}

/-- A result, with a success that holds null in the place of null. -/
def orRightNull : Value α → Value α
  | .null => .right .null
  | v => v

theorem eval_orElse_rightNull {e : Expr TypeName} {v : Value α} (h : e.eval lib s = .ok v) :
    (Expr.orElse e rightNull).eval lib s = .ok (orRightNull v) := by
  rw [Expr.eval, h]
  cases v <;> rfl

theorem eval_withFallback {e : Expr TypeName} {v : Value α} {nullable : Bool}
    (h : e.eval lib s = .ok v) :
    (withFallback nullable e).eval lib s = .ok (if nullable then orRightNull v else v) := by
  cases nullable with
  | true => exact eval_orElse_rightNull h
  | false => exact h

theorem orRightNull_ofResult (o : Except (Value α) (Value α)) :
    orRightNull (.ofResult o) = .ofResult o := by
  cases o <;> rfl

/-- A call, with a success that holds null in its place where it is not made. -/
theorem eval_withFallback_call {e : Expr TypeName} {v : Value α} {nullable : Bool}
    {f : Value α → Except Fault (Value α)}
    {result : Value α → Option (Except (Value α) (Value α))} {o : Except (Value α) (Value α)}
    (he : e.eval lib s = v.call nullable f)
    (hf : ∀ o, result v = some o → f v = .ok (.ofResult o))
    (ho : resultOrNull nullable result v = some o) :
    (withFallback nullable e).eval lib s = .ok (.ofResult o) := by
  have hmade : result v = some o → v.call nullable f = f v →
      (withFallback nullable e).eval lib s = .ok (.ofResult o) := by
    intro hresult hcall
    rw [hcall, hf o hresult] at he
    rw [eval_withFallback he, orRightNull_ofResult, ite_self]
  cases v with
  | null =>
    cases nullable with
    | true =>
      -- the safe call gives null, and the fallback makes it a success
      obtain rfl := Option.some.inj ho
      exact eval_withFallback he
    | false => exact hmade ho rfl
  | _ => exact hmade ho rfl

/-! ### Nested models -/

theorem eq_of_result_null {m : NestedModel} {o : Except (Value α) (Value α)}
    (h : m.result .null = some o) : m.nullable = true ∧ o = .ok .null := by
  rw [NestedModel.result] at h
  cases hnullable : m.nullable with
  | true =>
    rw [hnullable] at h
    exact ⟨rfl, (Option.some.inj h).symm⟩
  | false =>
    rw [hnullable] at h
    cases h

theorem ofResult_of_result {m : NestedModel} {v : Value α} {o : Except (Value α) (Value α)}
    (h : m.result v = some o) :
    (if m.nullable then orRightNull v else v) = .ofResult o := by
  cases v with
  | left e =>
    obtain rfl := Option.some.inj h
    exact ite_self _
  | right v =>
    obtain rfl := Option.some.inj h
    exact ite_self _
  | null =>
    obtain ⟨hnullable, rfl⟩ := eq_of_result_null h
    rw [hnullable]
    rfl
  | _ => cases h

/-- What is made of the content of an option. -/
theorem eval_presentModel {m : NestedModel} {v : Value α} {o : Except (Value α) (Value α)}
    (h : m.result v = some o) :
    (presentModel m.nullable).eval lib (("it", v) :: s) = .ok (.ofResult (o.map .present)) := by
  cases v with
  | left e =>
    obtain rfl := Option.some.inj h
    cases m.nullable <;> rfl
  | right v =>
    obtain rfl := Option.some.inj h
    cases m.nullable <;> rfl
  | null =>
    obtain ⟨hnullable, rfl⟩ := eq_of_result_null h
    rw [hnullable]
    rfl
  | _ => cases h

theorem gathered_map_ofResult (results : List (Except (Value α) (Value α))) :
    Value.gathered (results.map .ofResult) =
      .ok (results.filterMap failure?, results.filterMap Except.toOption) := by
  induction results with
  | nil => rfl
  | cons o results ih =>
    cases o with
    | ok v =>
      show (Value.gathered (results.map .ofResult) >>= _) = _
      rw [ih]
      rfl
    | error e =>
      show (Value.gathered (results.map .ofResult) >>= _) = _
      rw [ih]
      rfl

/-- The runtime's validation of a list of results. -/
theorem validated_map_ofResult (results : List (Except (Value α) (Value α))) :
    Value.validated (.list (results.map .ofResult)) = .ok (.ofResult (gatheredResult results)) := by
  rw [Value.validated, gathered_map_ofResult, gatheredResult]
  cases results.filterMap failure? <;> rfl

theorem map_ofResult_of_mapM {m : NestedModel} {vs : List (Value α)}
    {results : List (Except (Value α) (Value α))} (h : vs.mapM m.result = some results) :
    vs.map (fun v => if m.nullable then orRightNull v else v) = results.map .ofResult := by
  induction vs generalizing results with
  | nil =>
    rw [List.mapM_nil] at h
    obtain rfl := Option.some.inj h
    rfl
  | cons v vs ih =>
    rw [List.mapM_cons] at h
    obtain ⟨o, ho, h⟩ := Option.bind_eq_some_iff.1 h
    obtain ⟨later, hlater, h⟩ := Option.bind_eq_some_iff.1 h
    obtain rfl := Option.some.inj h
    rw [List.map_cons, List.map_cons, ofResult_of_result ho, ih hlater]

/-- The elements with a success that holds null for every null. -/
theorem mapped_orRightNull (vs : List (Value α)) :
    Value.mapped (fun v => (Expr.orElse .it rightNull).eval lib (("it", v) :: s)) (.list vs) =
      .ok (.list (vs.map orRightNull)) := by
  have helement : (fun v => (Expr.orElse .it rightNull).eval lib (("it", v) :: s)) =
      fun v : Value α => pure (orRightNull v) := by
    funext v
    exact eval_orElse_rightNull rfl
  rw [Value.mapped, helement, List.mapM_pure]
  rfl

/-- The validation of a list, whose elements are made results before. -/
def validatedElements (lib : Library α) (s : Variables α) (m : NestedModel) (nullable : Bool)
    (v : Value α) : Except Fault (Value α) :=
  if m.nullable then do
    (← Value.mapped (fun v => (Expr.orElse .it rightNull).eval lib (("it", v) :: s)) v).call nullable
      Value.validated
  else Value.validated v

theorem eval_validate {m : NestedModel} {nullable : Bool} {name : String} {v : Value α}
    (hv : s.get name = .ok v) :
    (Expr.validate (presentElements name m.nullable nullable) nullable).eval lib s =
      v.call nullable (validatedElements lib s m nullable) := by
  unfold validatedElements
  cases m.nullable with
  | false =>
    show (s.get name >>= _) = _
    rw [hv]
    rfl
  | true =>
    show ((s.get name >>= _) >>= _) = _
    rw [hv]
    -- on null both calls are safe or neither is
    cases v with
    | null => cases nullable <;> rfl
    | _ => rfl

theorem validatedElements_list {m : NestedModel} {nullable : Bool} {vs : List (Value α)}
    {results : List (Except (Value α) (Value α))} (h : vs.mapM m.result = some results) :
    validatedElements lib s m nullable (.list vs) = .ok (.ofResult (gatheredResult results)) := by
  have hresults := map_ofResult_of_mapM h
  unfold validatedElements
  cases hnullable : m.nullable with
  | false =>
    simp only [hnullable, Bool.false_eq_true, if_false, List.map_id'] at hresults
    rw [if_neg Bool.false_ne_true, hresults, validated_map_ofResult]
  | true =>
    simp only [hnullable, if_true] at hresults
    rw [if_pos rfl, mapped_orRightNull, hresults]
    exact validated_map_ofResult results

theorem eval_validateElements {m : NestedModel} {nullable : Bool} {name : String} {v : Value α}
    {o : Except (Value α) (Value α)} (hv : s.get name = .ok v)
    (ho : resultOrNull nullable (listResult m.result) v = some o) :
    (validateElements name m nullable).eval lib s = .ok (.ofResult o) := by
  refine eval_withFallback_call (eval_validate hv) (fun o ho => ?_) ho
  cases v with
  | list vs =>
    obtain ⟨results, hresults, rfl⟩ := Option.map_eq_some_iff.1 ho
    exact validatedElements_list hresults
  | _ => cases ho

/-- The option of a nested model's result. -/
theorem eval_optionalModel {m : NestedModel} {nullable : Bool} {name : String} {v : Value α}
    {o : Except (Value α) (Value α)} (hv : s.get name = .ok v)
    (ho : resultOrNull nullable (optionResult m.result) v = some o) :
    (withFallback nullable (.fold (.parameter name) nullable
      (.right eitherClass (.object noneObject)) (presentModel m.nullable))).eval lib s =
        .ok (.ofResult o) := by
  have hcall : (Expr.fold (.parameter name) nullable (.right eitherClass (.object noneObject))
      (presentModel m.nullable)).eval lib s = v.call nullable fun
        | .absent => .ok (.right .absent)
        | .present v => (presentModel m.nullable).eval lib (("it", v) :: s)
        | _ => .error .noSuchCall := by
    show (s.get name >>= _) = _
    rw [hv]
    rfl
  refine eval_withFallback_call hcall (fun o ho => ?_) ho
  cases v with
  | absent =>
    obtain rfl := Option.some.inj ho
    rfl
  | present v =>
    obtain ⟨o, hresult, rfl⟩ := Option.map_eq_some_iff.1 ho
    exact eval_presentModel hresult
  | _ => cases ho

theorem eval_make {w : ValidatedValue} {name : String} {v : Value α} (hv : s.get name = .ok v) :
    (Expr.make w.wrapper w.nullable (.parameter name)).eval lib s =
      .ok (.ofResult (lib.make w.wrapper.canonicalName w.nullable v)) := by
  show (s.get name >>= _) = _
  rw [hv]
  rfl

/-- The option of a raw value, which the companion itself looks into. -/
theorem eval_optionalValue {w : ValidatedValue} {name : String} {v : Value α}
    {o : Except (Value α) (Value α)} (hv : s.get name = .ok v)
    (ho : resultOrNull true (fun v => some (lib.make w.wrapper.canonicalName w.nullable v)) v = some o) :
    (Expr.orElse (.letIt (.parameter name) (.make w.wrapper w.nullable .it)) rightNull).eval lib s =
      .ok (.ofResult o) := by
  have hcall : (Expr.letIt (.parameter name) (.make w.wrapper w.nullable .it)).eval lib s =
      v.call true fun v => .ok (.ofResult (lib.make w.wrapper.canonicalName w.nullable v)) := by
    show (s.get name >>= _) = _
    rw [hv]
    rfl
  refine eval_withFallback_call hcall (fun o ho => ?_) ho
  obtain rfl := Option.some.inj ho
  rfl

/-! ### Properties -/

/-- The expression that validates a property has the property's result. -/
theorem eval_validationExpr {name : String} {kind : PropertyKind} {e : Expr TypeName} {v : Value α}
    {o : Except (Value α) (Value α)} (he : validationExpr name kind = some e)
    (hv : s.get name = .ok v) (ho : kind.result lib v = some o) :
    e.eval lib s = .ok (.ofResult o) := by
  cases kind with
  | standard type arguments => cases he
  | value w =>
    obtain rfl := Option.some.inj he
    obtain rfl := Option.some.inj ho
    exact eval_make hv
  | optionalValue w nullable =>
    cases nullable with
    | true =>
      obtain rfl := Option.some.inj he
      exact eval_optionalValue hv ho
    | false =>
      -- without null the companion is asked at once
      have hmake : lib.make w.wrapper.canonicalName w.nullable v = o := by
        cases v <;> exact Option.some.inj ho
      obtain rfl := Option.some.inj he
      rw [← hmake]
      exact eval_make hv
  | model m =>
    have hresult := ofResult_of_result ho
    rw [validationExpr] at he
    cases hnullable : m.nullable with
    | true =>
      rw [hnullable] at he hresult
      obtain rfl := Option.some.inj he
      have hparameter : (Expr.parameter name : Expr TypeName).eval lib s = .ok v := hv
      exact (eval_orElse_rightNull hparameter).trans (congrArg Except.ok hresult)
    | false =>
      rw [hnullable] at he
      cases he
  | optionalModel m nullable =>
    obtain rfl := Option.some.inj he
    exact eval_optionalModel hv ho
  | modelList m nullable =>
    obtain rfl := Option.some.inj he
    exact eval_validateElements hv ho
  | modelNonEmptyList m nullable =>
    obtain rfl := Option.some.inj he
    exact eval_validateElements hv ho

/-- Where no expression is needed for a property that is validated, what is passed is the
result. -/
theorem eq_ofResult_of_validationExpr_eq_none {name : String} {kind : PropertyKind} {v : Value α}
    {o : Except (Value α) (Value α)} (he : validationExpr name kind = none)
    (hkind : kind.isStandard = false) (ho : kind.result lib v = some o) : v = .ofResult o := by
  cases kind with
  | standard type arguments => cases hkind
  | model m =>
    have hresult := ofResult_of_result ho
    rw [validationExpr] at he
    cases hnullable : m.nullable with
    | true =>
      rw [hnullable] at he
      cases he
    | false =>
      rw [hnullable] at hresult
      exact hresult
  | optionalValue w nullable => cases nullable <;> cases he
  | _ => cases he

end Generation

end ModelForge
