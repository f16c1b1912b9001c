/-
Cycles of annotation classes.

The walk over annotations keeps the classes that it is inside of on a path, and turns back, with
a warning, at a class on it.  This file says how deep the walk goes and when it warns:

* `Context.AnnotatedWith` — the graph of the classes that the walk enters, with an edge for each
  annotation on a class;
* `Context.Calls` — the calls of the walk, each with its depth and its path;
* `Context.walkWithin` — the walk with a limit on its depth, which has no result when a call is
  deeper;
* `Context.Calls.tracked` — what is true at every call: the path is a way through the graph that
  comes through no class twice;
* `Context.acyclicOff_of_walkComposition` — a walk without a warning has seen a graph without
  cycles.

The main statement is `Context.compositionCycle_mem_compositionWarnings_iff`.
-/
import Mathlib.Data.List.Dedup
import Mathlib.Data.List.Perm.Subperm
import Mathlib.Logic.Relation
import ModelForge.Proofs.PropertyOrder

namespace ModelForge

open Relation

/-! ### Counting the declared classes -/

namespace DeclarationIndex

/-- The number of declared classes. A name counts once. -/
def classCount (idx : DeclarationIndex) : Nat :=
  idx.classNames.dedup.length

/-- Names of declared classes that are all different are no more than there are classes. -/
theorem length_le_classCount {idx : DeclarationIndex} {names : List String}
    (hnodup : names.Nodup) (hdeclared : ∀ n ∈ names, ∃ c, idx.class? n = some c) :
    names.length ≤ idx.classCount := by
  refine (List.subperm_of_subset hnodup fun n hn => ?_).length_le
  obtain ⟨c, hclass⟩ := hdeclared n hn
  obtain ⟨hc, rfl⟩ := mem_classes_of_class? hclass
  exact List.mem_dedup.2 (List.mem_map_of_mem hc)

end DeclarationIndex

namespace Context

/-! ### The graph -/

/-- The walk enters the class of the name: it is declared, not ignored, and not the annotation
that adds a field. -/
structure Enters (ctx : Context) (name : String) : Prop where
  notIgnored : ctx.markers.isIgnored name = false
  notDirective : name ≠ ctx.markers.addField
  declared : ∃ c, ctx.index.class? name = some c

/-- An edge of the graph: an annotation of the class `next` is written on the class `name`. -/
structure AnnotatedWith (ctx : Context) (name next : String) : Prop where
  source : ctx.Enters name
  target : ctx.Enters next
  written : ∃ c, ctx.index.class? name = some c ∧ ∃ b ∈ c.annotations, b.type = next

/-- The part of the graph that is reachable from a list of annotations. -/
def Spans (ctx : Context) (annotations : List Annotation) (name : String) : Prop :=
  ∃ a ∈ annotations, ctx.Enters a.type ∧ ReflTransGen ctx.AnnotatedWith a.type name

/-- The part of the graph that is reachable from the annotations contains a cycle. -/
def HasCycle (ctx : Context) (annotations : List Annotation) : Prop :=
  ∃ name, ctx.Spans annotations name ∧ TransGen ctx.AnnotatedWith name name

variable {ctx : Context} {annotations : List Annotation} {path : List String} {a b : Annotation}
  {c : ClassDecl}

theorem annotatedWith_of_mem (ha : ctx.Enters a.type) (hclass : ctx.index.class? a.type = some c)
    (hb : b ∈ c.annotations) (henters : ctx.Enters b.type) : ctx.AnnotatedWith a.type b.type :=
  ⟨ha, henters, c, hclass, b, hb, rfl⟩

theorem AnnotatedWith.exists_mem {name : String} (h : ctx.AnnotatedWith a.type name)
    (hclass : ctx.index.class? a.type = some c) :
    ∃ b ∈ c.annotations, b.type = name ∧ ctx.Enters b.type := by
  obtain ⟨-, htarget, c', hclass', b, hb, rfl⟩ := h
  rw [hclass, Option.some.injEq] at hclass'
  subst hclass'
  exact ⟨b, hb, rfl, htarget⟩

/-! ### The calls of the walk -/

/-- The calls of the walk over a list of annotations, each with its depth, the path and the
annotation that it is for. -/
inductive Calls (ctx : Context) (annotations : List Annotation) :
    Nat → List String → Annotation → Prop
  | start {a : Annotation} (ha : a ∈ annotations) : Calls ctx annotations 1 [] a
  | nested {depth : Nat} {path : List String} {a b : Annotation} {c : ClassDecl}
      (h : Calls ctx annotations depth path a) (ha : ctx.Enters a.type) (hpath : a.type ∉ path)
      (hclass : ctx.index.class? a.type = some c) (hb : b ∈ c.annotations) :
      Calls ctx annotations (depth + 1) (path ++ [a.type]) b

/-- A path of the walk: classes that it enters, no class twice. -/
structure IsPath (ctx : Context) (path : List String) : Prop where
  nodup : path.Nodup
  enters : ∀ n ∈ path, ctx.Enters n

theorem IsPath.nil : ctx.IsPath [] :=
  ⟨List.nodup_nil, nofun⟩

theorem IsPath.concat (h : ctx.IsPath path) {name : String} (hname : ctx.Enters name)
    (hpath : name ∉ path) : ctx.IsPath (path ++ [name]) := by
  refine ⟨h.nodup.append (List.nodup_singleton _) ?_, ?_⟩
  · simpa using hpath
  · intro n hn
    rcases List.mem_append.1 hn with hn | hn
    · exact h.enters n hn
    · rwa [List.mem_singleton.1 hn]

theorem IsPath.length_le (h : ctx.IsPath path) : path.length ≤ ctx.index.classCount :=
  DeclarationIndex.length_le_classCount h.nodup fun n hn => (h.enters n hn).declared

/-- What is true at a call of the walk. -/
structure Tracked (ctx : Context) (annotations : List Annotation) (depth : Nat)
    (path : List String) (a : Annotation) : Prop where
  depth_eq : depth = path.length + 1
  isPath : ctx.IsPath path
  /-- the path stays inside what is reachable -/
  spans : ∀ n ∈ path, ctx.Spans annotations n
  /-- the walk is at what is reachable -/
  reached : ctx.Enters a.type → ctx.Spans annotations a.type
  /-- there is a way from each class on the path to the next one -/
  way : ctx.Enters a.type → ∀ n ∈ path, TransGen ctx.AnnotatedWith n a.type

theorem Tracked.start (ha : a ∈ annotations) : ctx.Tracked annotations 1 [] a where
  depth_eq := rfl
  isPath := .nil
  spans := nofun
  reached henters := ⟨a, ha, henters, .refl⟩
  way _ := nofun

/-- A nested call keeps what is true at the call. -/
theorem Tracked.nested {depth : Nat} (h : ctx.Tracked annotations depth path a)
    (ha : ctx.Enters a.type) (hpath : a.type ∉ path) (hclass : ctx.index.class? a.type = some c)
    (hb : b ∈ c.annotations) : ctx.Tracked annotations (depth + 1) (path ++ [a.type]) b where
  depth_eq := by simp [h.depth_eq]
  isPath := h.isPath.concat ha hpath
  spans := by
    intro n hn
    rcases List.mem_append.1 hn with hn | hn
    · exact h.spans n hn
    · rw [List.mem_singleton.1 hn]
      exact h.reached ha
  reached henters := by
    obtain ⟨root, hroot, hstart, hway⟩ := h.reached ha
    exact ⟨root, hroot, hstart, hway.tail (annotatedWith_of_mem ha hclass hb henters)⟩
  way henters := by
    have hedge := annotatedWith_of_mem ha hclass hb henters
    intro n hn
    rcases List.mem_append.1 hn with hn | hn
    · exact (h.way ha n hn).tail hedge
    · rw [List.mem_singleton.1 hn]
      exact .single hedge

theorem Calls.tracked {depth : Nat} (h : ctx.Calls annotations depth path a) :
    ctx.Tracked annotations depth path a := by
  induction h with
  | start ha => exact .start ha
  | nested _ ha hpath hclass hb ih => exact ih.nested ha hpath hclass hb

/-! ### The walk with a limit -/

/-- The walk with a limit on the depth of its calls. There is no result if a call is deeper. -/
def walkWithin (ctx : Context) : Nat → List String → Annotation → Option (List CompositionEvent)
  | 0, _, _ => none
  | depth + 1, path, a =>
    if ctx.markers.isIgnored a.type then some []
    else if a.type = ctx.markers.addField then some [.directive a]
    else if a.type ∈ path then some [.cycle a.type path]
    else
      match ctx.index.class? a.type with
      | none => some []
      | some c => (c.annotations.mapM (walkWithin ctx depth (path ++ [a.type]))).map List.flatten

theorem mapM_eq_some_map {α β : Type} {f : α → Option β} {g : α → β} {as : List α}
    (h : ∀ x ∈ as, f x = some (g x)) : as.mapM f = some (as.map g) := by
  induction as with
  | nil => rfl
  | cons x as ih =>
    have hhead := h x List.mem_cons_self
    have htail := ih fun y hy => h y (List.mem_cons_of_mem _ hy)
    simp [List.mapM_cons, hhead, htail]

/-- The limit changes nothing where it leaves room for the classes that are not on the path. -/
theorem walkWithin_eq_some {depth : Nat} (hpath : ctx.IsPath path)
    (hdepth : ctx.index.classCount < depth + path.length) (a : Annotation) :
    ctx.walkWithin depth path a = some (ctx.walkComposition path a) := by
  induction depth generalizing path a with
  | zero =>
    -- a path of all classes cannot be made longer
    have := hpath.length_le
    omega
  | succ depth ih =>
    rw [walkWithin, walkComposition]
    by_cases hignored : ctx.markers.isIgnored a.type = true
    · rw [if_pos hignored, if_pos hignored]
    rw [if_neg hignored, if_neg hignored]
    by_cases hdirective : a.type = ctx.markers.addField
    · rw [if_pos hdirective, if_pos hdirective]
    rw [if_neg hdirective, if_neg hdirective]
    by_cases hmem : a.type ∈ path
    · rw [if_pos hmem, dif_pos hmem]
    rw [if_neg hmem, dif_neg hmem]
    cases hclass : ctx.index.class? a.type with
    | none => rfl
    | some c =>
      have hin : ctx.Enters a.type := ⟨Bool.eq_false_iff.2 hignored, hdirective, c, hclass⟩
      have hroom : ctx.index.classCount < depth + (path ++ [a.type]).length := by
        rw [List.length_append, List.length_singleton]
        omega
      have hnested : ∀ b ∈ c.annotations, ctx.walkWithin depth (path ++ [a.type]) b =
          some (ctx.walkComposition (path ++ [a.type]) b) :=
        fun b _ => ih (hpath.concat hin hmem) hroom b
      dsimp only
      rw [mapM_eq_some_map hnested, Option.map_some, List.flatMap_def]

/-! ### From a warning to a cycle -/

/-- A return is met at a call for a class on the path. -/
theorem exists_calls_of_cycle_mem {repeated : String} {way : List String} {depth : Nat}
    (hcall : ctx.Calls annotations depth path a)
    (h : .cycle repeated way ∈ ctx.walkComposition path a) :
    ∃ depth' b, ctx.Calls annotations depth' way b ∧ b.type = repeated ∧ repeated ∈ way := by
  induction path, a using walkComposition.induct ctx generalizing depth with
  | case1 path a hignored =>
    rw [walkComposition_of_ignored hignored] at h
    cases h
  | case2 path a hignored hdirective =>
    rw [walkComposition_of_directive ⟨Bool.eq_false_iff.2 hignored, hdirective⟩] at h
    simp at h
  | case3 path a hignored hdirective hpath =>
    rw [walkComposition_of_mem (Bool.eq_false_iff.2 hignored) hdirective hpath] at h
    simp only [List.mem_singleton, CompositionEvent.cycle.injEq] at h
    obtain ⟨rfl, rfl⟩ := h
    exact ⟨depth, a, hcall, rfl, hpath⟩
  | case4 path a hignored hdirective hpath hclass =>
    rw [walkComposition_of_not_class (Bool.eq_false_iff.2 hignored) hdirective hpath hclass] at h
    cases h
  | case5 path a hignored hdirective hpath c hclass ih =>
    have hig := Bool.eq_false_iff.2 hignored
    rw [walkComposition_of_class hig hdirective hpath hclass] at h
    obtain ⟨b, hb, h⟩ := List.mem_flatMap.1 h
    exact ih b (hcall.nested ⟨hig, hdirective, c, hclass⟩ hpath hclass hb) h

/-- Where the walk returns, there is a cycle. -/
theorem hasCycle_of_cycle_mem {root repeated : String} {way : List String}
    (h : (root, .cycle repeated way) ∈ ctx.compositionEvents annotations) :
    ctx.HasCycle annotations := by
  obtain ⟨a, ha, h⟩ := List.mem_flatMap.1 h
  obtain ⟨event, hevent, heq⟩ := List.mem_map.1 h
  obtain ⟨-, rfl⟩ := Prod.mk.inj heq
  obtain ⟨depth, b, hcall, rfl, hon⟩ := exists_calls_of_cycle_mem (.start ha) hevent
  have htracked := hcall.tracked
  have henters := htracked.isPath.enters _ hon
  exact ⟨b.type, htracked.reached henters, htracked.way henters _ hon⟩

/-! ### From a cycle to a warning -/

/-- What is reachable from the name is off the path and on no cycle. -/
def AcyclicOff (ctx : Context) (path : List String) (name : String) : Prop :=
  ∀ n, ReflTransGen ctx.AnnotatedWith name n → n ∉ path ∧ ¬ TransGen ctx.AnnotatedWith n n

/-- A walk that meets no return from a class on comes back neither to the path nor to any class
behind this one. -/
theorem acyclicOff_of_walkComposition (hentered : ctx.Enters a.type)
    (h : ∀ repeated way, .cycle repeated way ∉ ctx.walkComposition path a) :
    ctx.AcyclicOff path a.type := by
  induction path, a using walkComposition.induct ctx with
  | case1 path a hignored =>
    have hnot := hentered.notIgnored
    simp [hignored] at hnot
  | case2 path a hignored hdirective => exact absurd hdirective hentered.notDirective
  | case3 path a hignored hdirective hpath =>
    rw [walkComposition_of_mem hentered.notIgnored hdirective hpath] at h
    exact absurd List.mem_cons_self (h a.type path)
  | case4 path a hignored hdirective hpath hclass =>
    obtain ⟨c, hdeclared⟩ := hentered.declared
    simp [hclass] at hdeclared
  | case5 path a hignored hdirective hpath c hclass ih =>
    rw [walkComposition_of_class hentered.notIgnored hdirective hpath hclass] at h
    -- behind each annotation of the class, nothing is on the path or is the class itself
    have hnext : ∀ next, ctx.AnnotatedWith a.type next →
        ctx.AcyclicOff (path ++ [a.type]) next := by
      intro next hedge
      obtain ⟨b, hb, rfl, hbentered⟩ := hedge.exists_mem hclass
      refine ih b hbentered fun repeated way hmem => h repeated way ?_
      exact List.mem_flatMap.2 ⟨b, hb, hmem⟩
    intro n hway
    rcases hway.cases_head with rfl | ⟨next, hedge, hrest⟩
    · refine ⟨hpath, fun hcycle => ?_⟩
      obtain ⟨next, hedge, hback⟩ := TransGen.head'_iff.1 hcycle
      exact (hnext next hedge _ hback).1 (by simp)
    · obtain ⟨hoff, hacyclic⟩ := hnext next hedge n hrest
      exact ⟨fun hmem => hoff (List.mem_append_left _ hmem), hacyclic⟩

/-- Where there is a cycle, the walk returns. -/
theorem exists_cycle_mem_of_hasCycle (h : ctx.HasCycle annotations) :
    ∃ root repeated way, (root, .cycle repeated way) ∈ ctx.compositionEvents annotations := by
  obtain ⟨name, ⟨a, ha, hentered, hway⟩, hcycle⟩ := h
  by_contra hnone
  have hwalk : ∀ repeated way, .cycle repeated way ∉ ctx.walkComposition [] a := by
    intro repeated way hmem
    exact hnone ⟨a.type, repeated, way, List.mem_flatMap.2 ⟨a, ha, List.mem_map_of_mem hmem⟩⟩
  exact (acyclicOff_of_walkComposition hentered hwalk name hway).2 hcycle

end Context

/-! ### What is reported -/

namespace Composition

theorem cycle_mem_of_mem_warnings {events : List (String × CompositionEvent)} {repeated : String}
    {way : List String} (h : .compositionCycle repeated way ∈ warnings events) :
    ∃ root, (root, .cycle repeated way) ∈ events := by
  induction events with
  | nil => cases h
  | cons e events ih =>
    obtain ⟨root, event⟩ := e
    cases event with
    | directive a =>
      rw [warnings] at h
      split at h
      · obtain ⟨root', hmem⟩ := ih h
        exact ⟨root', List.mem_cons_of_mem _ hmem⟩
      · cases h
    | cycle repeated' way' =>
      rw [warnings, List.mem_cons] at h
      rcases h with heq | h
      · cases heq
        exact ⟨root, List.mem_cons_self⟩
      · obtain ⟨root', hmem⟩ := ih h
        exact ⟨root', List.mem_cons_of_mem _ hmem⟩

/-- No return is left out of the report if all directives can be read. -/
theorem mem_warnings_of_cycle_mem {events : List (String × CompositionEvent)}
    {fields : List ComposedField} (hread : readFields events = .ok fields)
    {root repeated : String} {way : List String} (h : (root, .cycle repeated way) ∈ events) :
    .compositionCycle repeated way ∈ warnings events := by
  have hdecodes := ((readFields_eq_ok_iff _ _).1 hread).1
  clear hread
  induction events with
  | nil => cases h
  | cons e events ih =>
    have hlater : ∀ root a, (root, .directive a) ∈ events →
        ∃ field, FieldDirective.decode a = .ok field :=
      fun root a hmem => hdecodes root a (List.mem_cons_of_mem _ hmem)
    obtain ⟨root', event⟩ := e
    cases event with
    | directive a =>
      obtain ⟨field, hfield⟩ := hdecodes root' a List.mem_cons_self
      have hmem : (root, .cycle repeated way) ∈ events := by simpa using h
      rw [warnings, hfield]
      exact ih hmem hlater
    | cycle repeated' way' =>
      rw [warnings, List.mem_cons]
      rcases List.mem_cons.1 h with heq | hmem
      · cases heq
        exact .inl rfl
      · exact .inr (ih hmem hlater)

/-- An expansion that is not refused for a directive has read them all. -/
theorem exists_readFields_eq_ok {ctx : Context} {declaration : String}
    {annotations : List Annotation}
    (h : ∀ p, ctx.expandComposition declaration annotations = .error p →
      ∃ name, p = .duplicateField declaration name) :
    ∃ fields, readFields (ctx.compositionEvents annotations) = .ok fields := by
  cases hread : readFields (ctx.compositionEvents annotations) with
  | ok fields => exact ⟨fields, rfl⟩
  | error p =>
    -- a directive that cannot be read is a problem with its arguments
    have hconcerns := endsIn_readFields _ p hread
    have hexpand : ctx.expandComposition declaration annotations = .error p := by
      rw [Context.expandComposition, hread]
      rfl
    obtain ⟨name, rfl⟩ := h p hexpand
    cases hconcerns

end Composition

/-- **The walk over annotations ends, and it warns of cycles exactly where there are some.**
The path of no call repeats a class, and only declared classes are on it; so no call is deeper
than their number plus one, and a limit of this depth changes nothing.  And if the annotations
are not refused for a directive that cannot be read, then there is a warning if and only if
the graph of the entered classes that are reachable from the annotations contains a cycle. -/
theorem Context.compositionCycle_mem_compositionWarnings_iff (ctx : Context)
    (declaration : String) (annotations : List Annotation) :
    (∀ depth path a, ctx.Calls annotations depth path a →
      path.Nodup ∧ (∀ n ∈ path, ∃ c, ctx.index.class? n = some c) ∧
        depth ≤ ctx.index.classCount + 1) ∧
    (∀ a, ctx.walkWithin (ctx.index.classCount + 1) [] a = some (ctx.walkComposition [] a)) ∧
    ((∀ p, ctx.expandComposition declaration annotations = .error p →
        ∃ name, p = .duplicateField declaration name) →
      ((∃ repeated path, .compositionCycle repeated path ∈ ctx.compositionWarnings annotations) ↔
        ctx.HasCycle annotations)) := by
  refine ⟨fun depth path a hcall => ?_, fun a => ?_, fun hexpand => ⟨?_, fun hcycle => ?_⟩⟩
  · have htracked := hcall.tracked
    have hlength := htracked.isPath.length_le
    have hdepth := htracked.depth_eq
    refine ⟨htracked.isPath.nodup, fun n hn => (htracked.isPath.enters n hn).declared, ?_⟩
    omega
  · exact walkWithin_eq_some .nil (by simp) a
  · rintro ⟨repeated, path, hwarning⟩
    obtain ⟨root, hevent⟩ := Composition.cycle_mem_of_mem_warnings hwarning
    exact hasCycle_of_cycle_mem hevent
  · obtain ⟨root, repeated, way, hevent⟩ := exists_cycle_mem_of_hasCycle hcycle
    obtain ⟨fields, hread⟩ := Composition.exists_readFields_eq_ok hexpand
    exact ⟨repeated, way, Composition.mem_warnings_of_cycle_mem hread hevent⟩

namespace Sample

theorem forward_hasCycle : forward.HasCycle [first, second] := by
  have hfirst : forward.Enters first.type := ⟨by decide, by decide, _, rfl⟩
  have hsecond : forward.Enters second.type := ⟨by decide, by decide, _, rfl⟩
  have hthere : forward.AnnotatedWith first.type second.type :=
    ⟨hfirst, hsecond, _, rfl, second, List.mem_cons_self, rfl⟩
  have hback : forward.AnnotatedWith second.type first.type :=
    ⟨hsecond, hfirst, _, rfl, first, List.mem_cons_self, rfl⟩
  exact ⟨first.type, ⟨first, List.mem_cons_self, hfirst, .refl⟩, .tail (.single hthere) hback⟩

end Sample

theorem Context.compositionCycle_mem_compositionWarnings_iff_pair :
    (∃ repeated path, .compositionCycle repeated path ∈
      Sample.forward.compositionWarnings [Sample.first, Sample.second]) ∧
    ∀ depth path a, Sample.forward.Calls [Sample.first, Sample.second] depth path a →
      depth ≤ 3 := by
  obtain ⟨hcalls, -, hiff⟩ := Context.compositionCycle_mem_compositionWarnings_iff
    Sample.forward "c.Model" [Sample.first, Sample.second]
  refine ⟨(hiff ?_).2 Sample.forward_hasCycle, fun depth path a h => ?_⟩
  · intro p hp
    rw [Sample.expandComposition_forward] at hp
    cases hp
  · exact (hcalls depth path a h).2.2

end ModelForge
