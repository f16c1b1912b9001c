/-
Factories report every failure.

A factory holds the result of each validation and then either constructs its class or returns
all failures at once.  The locals, the condition, the arguments and the failure cases are put
together separately; here they are shown to speak of the same results.

* `HoldsResults` — the variables that the code after the locals relies on, which
  `bindLocals_factory` provides;
* `eval_resultOf` — with these, every part of the code that refers to a property's result
  finds it;
* `failuresOf` — the failures of a list of properties, in its order;
* `run_factory` — what a factory returns where every class is itself.

The main statement is `call_factory`, on factories as they are written: there a property may be
called like a class, and `either_hidden` is one that is.
-/
import ModelForge.Proofs.PropertyResult
import ModelForge.Proofs.WrittenNames

namespace ModelForge.Generation

open Kotlin

variable {α : Type} {lib : Library α} {s : Variables α}

/-! ### Variables -/

theorem get_cons_self (name : String) (v : Value α) :
    Variables.get ((name, v) :: s) name = .ok v := by
  rw [Variables.get, List.lookup_cons_self]

theorem get_cons_of_ne {name other : String} (h : name ≠ other) (v : Value α) :
    Variables.get ((other, v) :: s) name = s.get name := by
  rw [Variables.get, List.lookup_cons, beq_eq_false_iff_ne.2 h]
  rfl

/-- A parameter has the value that is passed for it. -/
theorem get_zip (input : Property → Value α) {properties : List Property} {p : Property}
    (hnames : (properties.map (·.name)).Nodup) (hp : p ∈ properties) :
    Variables.get ((properties.map (·.name)).zip (properties.map input)) p.name = .ok (input p) := by
  induction properties with
  | nil => cases hp
  | cons q properties ih =>
    rw [List.map_cons, List.nodup_cons] at hnames
    rw [List.map_cons, List.map_cons, List.zip_cons_cons]
    rcases List.mem_cons.1 hp with rfl | hp
    · exact get_cons_self _ _
    · have hne : p.name ≠ q.name := by
        intro heq
        rw [← heq] at hnames
        exact hnames.1 (List.mem_map_of_mem hp)
      rw [get_cons_of_ne hne]
      exact ih hnames.2 hp

/-! ### Results -/

variable {mode : Mode} {p : Property} {properties : List Property} {input : Property → Value α}
  {outcome : Property → Except (Value α) (Value α)}

/-- The variables hold what has been passed, and the results in the locals. -/
structure HoldsResults (mode : Mode) (properties : List Property) (input : Property → Value α)
    (outcome : Property → Except (Value α) (Value α)) (s : Variables α) : Prop where
  parameters : ∀ p ∈ properties, s.get p.name = .ok (input p)
  locals : ∀ p ∈ properties, ∀ l, (validation mode p).local? = some l →
    s.get l.name = .ok (.ofResult (outcome p))

/-- The locals of a factory for the properties. -/
def localsOf (mode : Mode) (properties : List Property) : List (Local TypeName TypeName) :=
  properties.filterMap fun p => (validation mode p).local?

theorem validation_of_some {e : Expr TypeName} (h : validationExpr p.name p.kind = some e) :
    validation mode p = .byLocal ⟨p.resultName, localType mode p.kind, e⟩ := by
  rw [validation, h]

theorem validation_of_none (h : validationExpr p.name p.kind = none) :
    validation mode p = if p.kind.isStandard then .none else .parameter := by
  rw [validation, h]

theorem eval_local {l : Local TypeName TypeName} (hl : (validation mode p).local? = some l)
    (hparameter : s.get p.name = .ok (input p))
    (hresult : p.kind.result lib (input p) = some (outcome p)) :
    l.value.eval lib s = .ok (.ofResult (outcome p)) := by
  cases he : validationExpr p.name p.kind with
  | some e =>
    rw [validation_of_some he] at hl
    obtain rfl := Option.some.inj hl
    exact eval_validationExpr he hparameter hresult
  | none =>
    rw [validation_of_none he] at hl
    split at hl <;> cases hl

/-- What the locals of the properties make of the variables: they hold the results, and no
other variable changes. -/
theorem bindLocals_localsOf {s : Variables α} (properties : List Property)
    (hparameters : ∀ p ∈ properties, s.get p.name = .ok (input p))
    (hresult : ∀ p ∈ properties, p.kind.result lib (input p) = some (outcome p))
    (hlocals : ((localsOf mode properties).map (·.name)).Nodup)
    (hapart : ∀ l ∈ localsOf mode properties, ∀ p ∈ properties, l.name ≠ p.name) :
    ∃ s', bindLocals lib (localsOf mode properties) s = .ok s' ∧
      (∀ name, name ∉ (localsOf mode properties).map (·.name) → s'.get name = s.get name) ∧
      ∀ p ∈ properties, ∀ l, (validation mode p).local? = some l →
        s'.get l.name = .ok (.ofResult (outcome p)) := by
  induction properties generalizing s with
  | nil => exact ⟨s, rfl, fun name _ => rfl, nofun⟩
  | cons p properties ih =>
    cases hl : (validation mode p).local? with
    | none =>
      -- the property has no local, and the variables stay as they are
      have heq : localsOf mode (p :: properties) = localsOf mode properties :=
        List.filterMap_cons_none hl
      rw [heq] at hlocals hapart ⊢
      obtain ⟨s', hbind, hother, hheld⟩ := ih (fun q hq => hparameters q (List.mem_cons_of_mem _ hq))
        (fun q hq => hresult q (List.mem_cons_of_mem _ hq)) hlocals
        fun l hl q hq => hapart l hl q (List.mem_cons_of_mem _ hq)
      refine ⟨s', hbind, hother, fun q hq l' hl' => ?_⟩
      rcases List.mem_cons.1 hq with rfl | hq
      · rw [hl] at hl'
        cases hl'
      · exact hheld q hq l' hl'
    | some l =>
      have heq : localsOf mode (p :: properties) = l :: localsOf mode properties :=
        List.filterMap_cons_some hl
      rw [heq] at hlocals hapart ⊢
      rw [List.map_cons, List.nodup_cons] at hlocals
      have hvalue : l.value.eval lib s = .ok (.ofResult (outcome p)) :=
        eval_local hl (hparameters p List.mem_cons_self) (hresult p List.mem_cons_self)
      -- the new local hides none of the parameters that later locals read
      have hparameters' : ∀ q ∈ properties,
          Variables.get ((l.name, .ofResult (outcome p)) :: s) q.name = .ok (input q) := by
        intro q hq
        have hne := (hapart l List.mem_cons_self q (List.mem_cons_of_mem _ hq)).symm
        rw [get_cons_of_ne hne]
        exact hparameters q (List.mem_cons_of_mem _ hq)
      obtain ⟨s', hbind, hother, hheld⟩ := ih hparameters'
        (fun q hq => hresult q (List.mem_cons_of_mem _ hq)) hlocals.2
        fun l' hl' q hq => hapart l' (List.mem_cons_of_mem _ hl') q (List.mem_cons_of_mem _ hq)
      refine ⟨s', ?_, fun name hname => ?_, fun q hq l' hl' => ?_⟩
      · rw [bindLocals, hvalue]
        exact hbind
      · rw [List.map_cons, List.mem_cons, not_or] at hname
        rw [hother name hname.2, get_cons_of_ne hname.1]
      · rcases List.mem_cons.1 hq with rfl | hq
        · -- no later local has the name of this one
          rw [hl] at hl'
          obtain rfl := Option.some.inj hl'
          rw [hother l.name hlocals.1, get_cons_self]
        · exact hheld q hq l' hl'

theorem resultOf_eq_none_iff (mode : Mode) {p : Property} :
    resultOf mode p = none ↔ p.kind.isStandard = true := by
  cases he : validationExpr p.name p.kind with
  | some e =>
    rw [resultOf, validation_of_some he]
    constructor
    · intro h
      cases h
    · intro h
      cases hkind : p.kind with
      | standard type arguments =>
        rw [hkind] at he
        cases he
      | _ =>
        rw [hkind] at h
        cases h
  | none =>
    rw [resultOf, validation_of_none he]
    cases p.kind.isStandard with
    | true => exact ⟨fun _ => rfl, fun _ => rfl⟩
    | false => exact ⟨nofun, nofun⟩

/-- A reference to the result of a property finds it. -/
theorem eval_resultOf (hs : HoldsResults mode properties input outcome s) (hp : p ∈ properties)
    (hresult : p.kind.result lib (input p) = some (outcome p)) {e : Expr TypeName}
    (he : resultOf mode p = some e) : e.eval lib s = .ok (.ofResult (outcome p)) := by
  have hkind : p.kind.isStandard = false := by
    rw [← Bool.not_eq_true, ← resultOf_eq_none_iff mode, he]
    exact Option.some_ne_none e
  cases hexpr : validationExpr p.name p.kind with
  | some value =>
    rw [resultOf, validation_of_some hexpr] at he
    obtain rfl := Option.some.inj he
    refine hs.locals p hp ⟨p.resultName, localType mode p.kind, value⟩ ?_
    rw [validation_of_some hexpr]
    rfl
  | none =>
    -- the parameter is the result of a nested model's own factory
    rw [resultOf, validation_of_none hexpr, hkind] at he
    obtain rfl := Option.some.inj he
    have hpassed := eq_ofResult_of_validationExpr_eq_none hexpr hkind hresult
    rw [← hpassed]
    exact hs.parameters p hp

/-- A standard property is not validated, and what is passed for it counts as its success. -/
theorem outcome_of_standard (hresult : p.kind.result lib (input p) = some (outcome p))
    (hkind : p.kind.isStandard = true) : outcome p = .ok (input p) := by
  cases h : p.kind with
  | standard type arguments =>
    rw [h] at hresult
    exact (Option.some.inj hresult).symm
  | _ =>
    rw [h] at hkind
    cases hkind

/-- The code after the locals finds what it needs of a property: its result where it is
validated, and otherwise a parameter that counts as a success. -/
structure Finds (lib : Library α) (mode : Mode)
    (outcome : Property → Except (Value α) (Value α)) (s : Variables α) (p : Property) : Prop where
  result : ∀ {e}, resultOf mode p = some e → e.eval lib s = .ok (.ofResult (outcome p))
  passed : resultOf mode p = none → ∃ v, s.get p.name = .ok v ∧ outcome p = .ok v

theorem HoldsResults.finds (hs : HoldsResults mode properties input outcome s)
    (hp : p ∈ properties) (hresult : p.kind.result lib (input p) = some (outcome p)) :
    Finds lib mode outcome s p where
  result := eval_resultOf hs hp hresult
  passed he := by
    have hkind := (resultOf_eq_none_iff _).1 he
    exact ⟨input p, hs.parameters p hp, outcome_of_standard hresult hkind⟩

/-! ### The code after the locals -/

/-- The failures of the properties, each in its variant. -/
def failuresOf (variants : TypeName) (outcome : Property → Except (Value α) (Value α))
    (properties : List Property) : List (Value α) :=
  properties.filterMap fun p =>
    (failure? (outcome p)).map (.variant variants.canonicalName p.failureName)

/-- The success of a validation, or null. -/
def successOf : Except (Value α) (Value α) → Value α
  | .ok v => v
  | .error _ => .null

theorem name_argumentOf (mode : Mode) (p : Property) : (argumentOf mode p).name = p.name := by
  rw [argumentOf]
  split <;> rfl

theorem eval_argumentOf (h : Finds lib mode outcome s p) {v : Value α} (hv : outcome p = .ok v) :
    (argumentOf mode p).value.eval lib s = .ok v := by
  rw [argumentOf]
  cases he : resultOf mode p with
  | some e =>
    show (e.eval lib s >>= Value.content) = .ok v
    rw [h.result he, hv]
    rfl
  | none =>
    obtain ⟨w, hw, hok⟩ := h.passed he
    rw [hv] at hok
    obtain rfl := Except.ok.inj hok
    exact hw

/-- The arguments are the successes, in the order of the properties. -/
theorem evalArguments_argumentOf {value : Property → Value α} {properties : List Property}
    (h : ∀ p ∈ properties, Finds lib mode outcome s p)
    (hvalue : ∀ p ∈ properties, outcome p = .ok (value p)) :
    evalArguments lib s (properties.map (argumentOf mode)) =
      .ok (properties.map fun p => (p.name, value p)) := by
  induction properties with
  | nil => rfl
  | cons p properties ih =>
    have hlater := ih (fun q hq => h q (List.mem_cons_of_mem _ hq))
      fun q hq => hvalue q (List.mem_cons_of_mem _ hq)
    have hp := eval_argumentOf (h p List.mem_cons_self) (hvalue p List.mem_cons_self)
    rw [List.map_cons, evalArguments, hp, hlater, name_argumentOf]
    rfl

/-- A condition on a result tells on which side it is. -/
theorem holds_of_eval {e : Expr TypeName} {o : Except (Value α) (Value α)} (side : Side)
    (h : e.eval lib s = .ok (.ofResult o)) :
    (Condition.mk e side).holds eitherClass lib s = .ok (side.isOf (.ofResult o)) := by
  rw [Condition.holds, h]
  rfl

/-- The conditions are that all properties succeed. -/
theorem allHold_conditionOf {properties : List Property}
    (h : ∀ p ∈ properties, Finds lib mode outcome s p) :
    allHold eitherClass lib s (properties.filterMap (conditionOf mode)) =
      .ok (properties.all fun p => (outcome p).isOk) := by
  induction properties with
  | nil => rfl
  | cons p properties ih =>
    have hlater := ih fun q hq => h q (List.mem_cons_of_mem _ hq)
    have hp := h p List.mem_cons_self
    cases he : resultOf mode p with
    | none =>
      obtain ⟨v, -, hok⟩ := hp.passed he
      have hcondition : conditionOf mode p = none := by rw [conditionOf, he]; rfl
      rw [List.filterMap_cons_none hcondition, hlater, List.all_cons, hok]
      rfl
    | some e =>
      have hcondition : conditionOf mode p = some ⟨e, .right⟩ := by rw [conditionOf, he]; rfl
      rw [List.filterMap_cons_some hcondition, allHold, holds_of_eval .right (hp.result he),
        List.all_cons]
      -- the first result that is no success decides
      cases outcome p with
      | ok v => exact hlater
      | error e => rfl

/-- The failure cases add the failures of the properties. -/
theorem gatherFailures_failureCaseOf {variants : TypeName} {properties : List Property}
    (h : ∀ p ∈ properties, Finds lib mode outcome s p) :
    gatherFailures eitherClass variants lib s (properties.filterMap (failureCaseOf mode)) =
      .ok (failuresOf variants outcome properties) := by
  induction properties with
  | nil => rfl
  | cons p properties ih =>
    have hlater := ih fun q hq => h q (List.mem_cons_of_mem _ hq)
    have hp := h p List.mem_cons_self
    cases he : resultOf mode p with
    | none =>
      obtain ⟨v, -, hok⟩ := hp.passed he
      have hcase : failureCaseOf mode p = none := by rw [failureCaseOf, he]; rfl
      rw [List.filterMap_cons_none hcase, hlater, failuresOf, failuresOf, List.filterMap_cons_none]
      rw [hok]
      rfl
    | some e =>
      have hcase : failureCaseOf mode p =
          some ⟨⟨e, .left⟩, p.failureName, .content e⟩ := by rw [failureCaseOf, he]; rfl
      have hresult := hp.result he
      rw [List.filterMap_cons_some hcase, gatherFailures, holds_of_eval .left hresult, failuresOf,
        List.filterMap_cons]
      cases ho : outcome p with
      | ok v => exact hlater
      | error failure =>
        have hcontent : (Expr.content e).eval lib s = .ok failure := by
          rw [Expr.eval, hresult, ho]
          rfl
        show ((Expr.content e).eval lib s >>= fun failure =>
          gatherFailures eitherClass variants lib s _ >>= _) = _
        rw [hcontent, hlater]
        rfl

theorem failuresOf_eq_nil_iff {variants : TypeName} :
    failuresOf variants outcome properties = [] ↔ ∀ p ∈ properties, ∃ v, outcome p = .ok v := by
  rw [failuresOf, List.filterMap_eq_nil_iff]
  refine forall_congr' fun p => forall_congr' fun _ => ?_
  cases outcome p with
  | ok v => exact ⟨fun _ => ⟨v, rfl⟩, fun _ => rfl⟩
  | error e => exact ⟨nofun, fun h => by obtain ⟨v, hv⟩ := h; cases hv⟩

/-! ### Factories -/

variable {t : FactoryTarget} {name : String}

theorem failureCases_eq_nil_iff (mode : Mode) {properties : List Property} :
    properties.filterMap (failureCaseOf mode) = [] ↔
      ∀ p ∈ properties, p.kind.isStandard = true := by
  rw [List.filterMap_eq_nil_iff]
  refine forall_congr' fun p => forall_congr' fun _ => ?_
  rw [failureCaseOf, Option.map_eq_none_iff, resultOf_eq_none_iff]

/-- A factory has no failure branch if and only if none of its properties is validated. -/
theorem failure_factory_eq_none_iff :
    (factory t name properties).failure = none ↔
      ∀ p ∈ properties, p.kind.isStandard = true := by
  rw [← failureCases_eq_nil_iff t.mode]
  show failureBranch t properties = none ↔ _
  rw [failureBranch]
  split
  · rename_i heq
    exact ⟨fun _ => heq, fun _ => rfl⟩
  · rename_i hne
    exact ⟨nofun, fun heq => absurd heq hne⟩

theorem eq_of_failure_factory {b : FailureBranch TypeName TypeName}
    (h : (factory t name properties).failure = some b) :
    b = ⟨properties.filterMap (conditionOf t.mode), t.variants, t.union,
      properties.filterMap (failureCaseOf t.mode)⟩ := by
  have hbranch : failureBranch t properties = some b := h
  rw [failureBranch] at hbranch
  split at hbranch
  · cases hbranch
  · exact (Option.some.inj hbranch).symm

/-- A standard property has no local. -/
theorem local?_of_standard (h : p.kind.isStandard = true) : (validation mode p).local? = none := by
  have hresult : resultOf mode p = none := (resultOf_eq_none_iff _).2 h
  rw [resultOf] at hresult
  cases hvalidation : validation mode p with
  | byLocal l =>
    rw [hvalidation] at hresult
    cases hresult
  | _ => rfl

theorem locals_factory_eq_nil (h : ∀ p ∈ properties, p.kind.isStandard = true) :
    (factory t name properties).locals = [] :=
  List.filterMap_eq_nil_iff.2 fun p hp => local?_of_standard (h p hp)

theorem success_factory {value : Property → Value α}
    (h : ∀ p ∈ properties, Finds lib t.mode outcome s p)
    (hvalue : ∀ p ∈ properties, outcome p = .ok (value p)) :
    (factory t name properties).success lib s = .ok (.right
      (.constructed t.constructed.canonicalName (properties.map fun p => (p.name, value p)))) := by
  show (evalArguments lib s (properties.map (argumentOf t.mode)) >>= _) = _
  rw [evalArguments_argumentOf h hvalue]
  rfl

/-- If all properties succeed, the class is constructed from the successes. -/
theorem outcome_factory_of_ok {value : Property → Value α}
    (h : ∀ p ∈ properties, Finds lib t.mode outcome s p)
    (hvalue : ∀ p ∈ properties, outcome p = .ok (value p)) :
    (factory t name properties).outcome lib s = .ok (.right
      (.constructed t.constructed.canonicalName (properties.map fun p => (p.name, value p)))) := by
  rw [Factory.outcome]
  cases hfailure : (factory t name properties).failure with
  | none => exact success_factory h hvalue
  | some b =>
    obtain rfl := eq_of_failure_factory hfailure
    have hall : (properties.all fun p => (outcome p).isOk) = true := by
      rw [List.all_eq_true]
      intro p hp
      rw [hvalue p hp]
      rfl
    show (allHold eitherClass lib s _ >>= _) = _
    rw [allHold_conditionOf h, hall]
    exact success_factory h hvalue

/-- If a property fails, all failures are returned. -/
theorem outcome_factory_of_error (h : ∀ p ∈ properties, Finds lib t.mode outcome s p)
    (hfails : failuresOf t.variants outcome properties ≠ []) :
    (factory t name properties).outcome lib s =
      .ok (.left (.list (failuresOf t.variants outcome properties))) := by
  rw [Factory.outcome]
  cases hfailure : (factory t name properties).failure with
  | none =>
    -- without failure branch every property is standard, and nothing fails
    have hstandard := failure_factory_eq_none_iff.1 hfailure
    refine absurd (failuresOf_eq_nil_iff.2 fun p hp => ?_) hfails
    obtain ⟨v, -, hok⟩ := (h p hp).passed ((resultOf_eq_none_iff _).2 (hstandard p hp))
    exact ⟨v, hok⟩
  | some b =>
    obtain rfl := eq_of_failure_factory hfailure
    have hnot : (properties.all fun p => (outcome p).isOk) = false := by
      rw [← Bool.not_eq_true, List.all_eq_true]
      refine fun hall => hfails (failuresOf_eq_nil_iff.2 fun p hp => ?_)
      have hok := hall p hp
      cases ho : outcome p with
      | ok v => exact ⟨v, rfl⟩
      | error e =>
        rw [ho] at hok
        cases hok
    show (allHold eitherClass lib s _ >>= _) = _
    rw [allHold_conditionOf h, hnot]
    show (gatherFailures eitherClass t.variants lib s _ >>= _) = _
    rw [gatherFailures_failureCaseOf h]
    cases hlist : failuresOf t.variants outcome properties with
    | nil => exact absurd hlist hfails
    | cons e es => rfl

/-- After the locals, the code finds the results of all properties. -/
theorem exists_finds (hnames : (properties.map (·.name)).Nodup)
    (hlocals : ((factory t name properties).locals.map (·.name)).Nodup)
    (hapart : ∀ l ∈ (factory t name properties).locals, ∀ p ∈ properties, l.name ≠ p.name)
    (hresult : ∀ p ∈ properties, p.kind.result lib (input p) = some (outcome p)) :
    ∃ s, (∀ p ∈ properties, Finds lib t.mode outcome s p) ∧
      (factory t name properties).run lib (properties.map input) =
        (factory t name properties).outcome lib s := by
  have hparameters := fun p => @get_zip _ input properties p hnames
  obtain ⟨s, hbind, hother, hheld⟩ :=
    bindLocals_localsOf properties hparameters hresult hlocals hapart
  have hs : HoldsResults t.mode properties input outcome s := by
    refine ⟨fun p hp => ?_, hheld⟩
    rw [hother p.name, hparameters p hp]
    intro hmem
    obtain ⟨l, hl, heq⟩ := List.mem_map.1 hmem
    exact hapart l hl p hp heq
  refine ⟨s, fun p hp => hs.finds hp (hresult p hp), ?_⟩
  have hnamed : (factory t name properties).parameters.map (·.name) = properties.map (·.name) := by
    show List.map _ (List.map _ properties) = _
    rw [List.map_map]
    rfl
  rw [Factory.run, hnamed]
  show (bindLocals lib (localsOf t.mode properties) _ >>= _) = _
  rw [hbind]
  rfl

/-- Whatever is passed, a factory gives an object of its class if and only if no validation
fails, and otherwise the failures. -/
theorem run_factory (lib : Library α) (t : FactoryTarget) (name : String)
    (properties : List Property) (input : Property → Value α)
    (outcome : Property → Except (Value α) (Value α))
    (hnames : (properties.map (·.name)).Nodup)
    (hlocals : ((factory t name properties).locals.map (·.name)).Nodup)
    (hapart : ∀ l ∈ (factory t name properties).locals, ∀ p ∈ properties, l.name ≠ p.name)
    (hresult : ∀ p ∈ properties, p.kind.result lib (input p) = some (outcome p)) :
    ((∃ v, (factory t name properties).run lib (properties.map input) = .ok (.right v)) ↔
      ∀ p ∈ properties, ∃ v, outcome p = .ok v) ∧
    (∀ value : Property → Value α, (∀ p ∈ properties, outcome p = .ok (value p)) →
      (factory t name properties).run lib (properties.map input) =
        .ok (.right (.constructed t.constructed.canonicalName
          (properties.map fun p => (p.name, value p))))) ∧
    ((∃ p ∈ properties, ∃ e, outcome p = .error e) →
      failuresOf t.variants outcome properties ≠ [] ∧
      (factory t name properties).run lib (properties.map input) =
        .ok (.left (.list (failuresOf t.variants outcome properties)))) ∧
    ((∀ p ∈ properties, p.kind.isStandard = true) ↔
      (factory t name properties).failure = none ∧ (factory t name properties).locals = []) := by
  obtain ⟨s, hfinds, hrun⟩ := exists_finds hnames hlocals hapart hresult
  rw [hrun]
  have hfails : (∃ p ∈ properties, ∃ e, outcome p = .error e) →
      failuresOf t.variants outcome properties ≠ [] := by
    rintro ⟨p, hp, e, he⟩ hnil
    obtain ⟨v, hv⟩ := failuresOf_eq_nil_iff.1 hnil p hp
    rw [he] at hv
    cases hv
  refine ⟨⟨?_, ?_⟩, fun value hvalue => outcome_factory_of_ok hfinds hvalue,
    fun h => ⟨hfails h, outcome_factory_of_error hfinds (hfails h)⟩, fun h => ?_, fun h => ?_⟩
  · rintro ⟨v, hv⟩
    by_cases hnil : failuresOf t.variants outcome properties = []
    · exact failuresOf_eq_nil_iff.1 hnil
    · rw [outcome_factory_of_error hfinds hnil] at hv
      cases hv
  · intro h
    have hvalue : ∀ p ∈ properties, outcome p = .ok (successOf (outcome p)) := by
      intro p hp
      obtain ⟨v, hv⟩ := h p hp
      rw [hv]
      rfl
    exact ⟨_, outcome_factory_of_ok hfinds hvalue⟩
  · exact ⟨failure_factory_eq_none_iff.2 h, locals_factory_eq_nil h⟩
  · exact failure_factory_eq_none_iff.1 h.1

/-- A written factory has a failure branch and locals if the factory has that it was made of. -/
theorem written_eq_none_iff {f : Factory TypeName TypeName} {w : Factory ClassUse TypeUse}
    (h : f.Spells w) :
    w.failure = none ∧ w.locals = [] ↔ f.failure = none ∧ f.locals = [] := by
  obtain ⟨-, -, -, -, hlocals, -, -, hfailure⟩ := h
  generalize f.failure = b, w.failure = b' at hfailure
  generalize f.locals = ls, w.locals = ls' at hlocals
  cases hfailure <;> cases hlocals <;> simp

/-- **A written factory constructs its class or returns every failure.**  It is written with some
imports, and stands in some surroundings.  If every name in it leads to what it is written for,
then, whatever is passed, it gives an object of its class if and only if no validation fails.  The
object receives every property once, in their order: what was passed for a standard one, and the
success of every other.  Otherwise there are failures, and the factory returns one variant for each
property that fails, in their order.  If a name leads elsewhere, the factory cannot be called.
Without validated properties there is nothing to decide. -/
theorem call_factory (around : Surroundings) (imports : Imports) (lib : Library α)
    (t : FactoryTarget) (name : String) (properties : List Property) (input : Property → Value α)
    (outcome : Property → Except (Value α) (Value α))
    (hnames : (properties.map (·.name)).Nodup)
    (hlocals : ((factory t name properties).locals.map (·.name)).Nodup)
    (hapart : ∀ l ∈ (factory t name properties).locals, ∀ p ∈ properties, l.name ≠ p.name)
    (hresult : ∀ p ∈ properties, p.kind.result lib (input p) = some (outcome p)) :
    let written := ((factory t name properties).spell.run imports).1
    (written.Resolves around →
      ((∃ v, written.call around lib (properties.map input) = .ok (.right v)) ↔
        ∀ p ∈ properties, ∃ v, outcome p = .ok v) ∧
      (∀ value : Property → Value α, (∀ p ∈ properties, outcome p = .ok (value p)) →
        written.call around lib (properties.map input) = .ok (.right (.constructed
          t.constructed.canonicalName (properties.map fun p => (p.name, value p))))) ∧
      ((∃ p ∈ properties, ∃ e, outcome p = .error e) →
        failuresOf t.variants outcome properties ≠ [] ∧
        written.call around lib (properties.map input) =
          .ok (.left (.list (failuresOf t.variants outcome properties))))) ∧
    (¬ written.Resolves around →
      written.call around lib (properties.map input) = .error .hidden) ∧
    ((∀ p ∈ properties, p.kind.isStandard = true) ↔
      written.failure = none ∧ written.locals = []) := by
  intro written
  have hspells : (factory t name properties).Spells written := Factory.gives_spell _ imports
  obtain ⟨hiff, hok, herror, hstandard⟩ :=
    run_factory lib t name properties input outcome hnames hlocals hapart hresult
  refine ⟨fun hresolves => ?_, fun hhidden => if_neg hhidden, ?_⟩
  · have hcall : written.call around lib (properties.map input) =
        (factory t name properties).run lib (properties.map input) :=
      (if_pos hresolves).trans (Factory.run_of_spells hspells lib _)
    rw [hcall]
    exact ⟨hiff, hok, herror⟩
  · rw [hstandard, written_eq_none_iff hspells]

/-! ### A sample -/

namespace Sample

/-- A validated number, refused if it is negative. -/
def positive (nullable : Bool) : ValidatedValue :=
  ⟨.simple "t" "Positive", .simple "kotlin" "Int", .simple "t" "Negative", nullable⟩

def numbers : Library Int where
  make _ _ v :=
    match v with
    | .atom n => if n < 0 then .error (.atom n) else .ok (.atom n)
    | v => .ok v
  build v := v

def nested (nullable : Bool) : NestedModel :=
  ⟨.template "t" "Address", nullable⟩

def property (name : String) (kind : PropertyKind) : Property :=
  ⟨name, kind, false, .declared, none⟩

def user : List Property :=
  [property "id" (.standard (.simple "kotlin" "Int") []), property "age" (.value (positive false)),
    property "home" (.optionalModel (nested true) true),
    property "offices" (.modelList (nested true) false), property "work" (.model (nested false))]

/-- A negative age, no home, and three offices of which the last one has failed. -/
def passed (p : Property) : Value Int :=
  match p.name with
  | "id" => .atom 1
  | "age" => .atom (-5)
  | "home" => .null
  | "offices" => .list [.right (.atom 2), .null, .left (.atom 3)]
  | _ => .right (.atom 4)

def checked (p : Property) : Except (Value Int) (Value Int) :=
  (p.kind.result numbers (passed p)).getD (.ok .null)

def target : FactoryTarget :=
  ⟨none, .simple "t" "User", .simple "t" "UserFieldFailure", .simple "t" "UserFieldFailure", .model⟩

/-- Nothing stands around a function that would be found before classes. -/
def nothingAround : Surroundings :=
  ⟨[], fun _ => false⟩

theorem locals_user : (factory target "of" user).locals.map (·.name) =
    ["vAge", "vHome", "vOffices"] := rfl

theorem apart_user : ∀ l ∈ (factory target "of" user).locals, ∀ p ∈ user, l.name ≠ p.name := by
  have hother : ∀ name ∈ ["vAge", "vHome", "vOffices"], name ∉ user.map (·.name) := by
    decide
  intro l hl p hp heq
  refine hother l.name ?_ (heq ▸ List.mem_map_of_mem hp)
  rw [← locals_user]
  exact List.mem_map_of_mem hl

theorem result_user : ∀ p ∈ user, p.kind.result numbers (passed p) = some (checked p) := by
  intro p hp
  simp only [user, List.mem_cons, List.not_mem_nil, or_false] at hp
  rcases hp with rfl | rfl | rfl | rfl | rfl <;> rfl

end Sample

theorem call_factory_user :
    (Sample.user.map (·.name)).Nodup ∧
    ((factory Sample.target "of" Sample.user).locals.map (·.name)).Nodup ∧
    (∀ l ∈ (factory Sample.target "of" Sample.user).locals, ∀ p ∈ Sample.user, l.name ≠ p.name) ∧
    (∀ p ∈ Sample.user,
      p.kind.result Sample.numbers (Sample.passed p) = some (Sample.checked p)) ∧
    ((factory Sample.target "of" Sample.user).spell.run (.start "t")).1.Resolves
      Sample.nothingAround ∧
    ((factory Sample.target "of" Sample.user).spell.run (.start "t")).1.call
      Sample.nothingAround Sample.numbers (Sample.user.map Sample.passed) = .ok (.left (.list
        [.variant "t.UserFieldFailure" "Age" (.atom (-5)),
          .variant "t.UserFieldFailure" "Offices" (.list [.atom 3])])) := by
  have hnames : (Sample.user.map (·.name)).Nodup := by decide
  have hlocals : ((factory Sample.target "of" Sample.user).locals.map (·.name)).Nodup := by
    rw [Sample.locals_user]
    decide
  have hresolves : ((factory Sample.target "of" Sample.user).spell.run (.start "t")).1.Resolves
      Sample.nothingAround := by
    decide +kernel
  obtain ⟨hresolved, -⟩ := call_factory Sample.nothingAround (.start "t") Sample.numbers
    Sample.target "of" Sample.user Sample.passed Sample.checked hnames hlocals Sample.apart_user
    Sample.result_user
  obtain ⟨-, -, hfails⟩ := hresolved hresolves
  have hage : Sample.property "age" (.value (Sample.positive false)) ∈ Sample.user :=
    List.mem_cons_of_mem _ List.mem_cons_self
  obtain ⟨-, hrun⟩ := hfails ⟨_, hage, .atom (-5), rfl⟩
  exact ⟨hnames, hlocals, Sample.apart_user, Sample.result_user, hresolves, hrun⟩

/-- A number that is called like the class of results. -/
def Sample.either : Property :=
  property "Either" (.standard (.simple "kotlin" "Int") [])

/-- A single property that needs no validation is called `Either`: the written factory gives no
success, because its only line names the class of results, and this name leads to the property. -/
theorem either_hidden :
    ([Sample.either].map (·.name)).Nodup ∧
    (factory Sample.target "of" [Sample.either]).locals = [] ∧
    (∀ v, Sample.either.kind.result Sample.numbers v = some (.ok v)) ∧
    displayLines (((factory Sample.target "of" [Sample.either]).spell.run
        (.start "t")).1.outcomeLines 0) = "return Either.Right(User(\n    Either = Either\n))\n" ∧
    ∀ around v, ((factory Sample.target "of" [Sample.either]).spell.run (.start "t")).1.call around
      Sample.numbers [v] = .error .hidden := by
  have hhidden : ∀ around : Surroundings, ¬ ((factory Sample.target "of" [Sample.either]).spell.run
      (.start "t")).1.Resolves around := by
    intro around hresolves
    have heither := hresolves (["Either"], .qualifier ⟨"arrow.core", ["Either"], false⟩)
      List.mem_cons_self
    cases heither
  exact ⟨by decide, rfl, fun v => rfl, by decide +kernel, fun around v => if_neg (hhidden around)⟩

end ModelForge.Generation
