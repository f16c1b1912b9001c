/-
The walk over annotations meets what is reachable.

`Context.walkComposition` is depth first and turns back at a class that it is inside of.
This file compares it with two notions that know nothing of the walk's bookkeeping:

* `Context.Reachable` — the annotations of a list, and the annotations on the class of a
  reachable annotation that is entered;
* `Context.MeetsAt` — what the walk meets at a position, that is, the list of the places that
  the annotations on the way to it have on their classes.

`Context.inOrder_walkComposition` says that the walk is the list of everything that is met at
some position, in the lexicographic order of the positions, and
`Context.exists_meetsAt_directive` that a reachable directive is met at one of them: turning
back loses no directive, because a way that comes through a class twice can be shortened.
-/
import ModelForge.Analysis.Composition

namespace ModelForge

/-! ### Lists in the order of positions -/

/-- The one position comes before the other, in lexicographic order. -/
def Before (p q : List Nat) : Prop :=
  List.Lex (· < ·) p q

theorem before_cons_iff {i j : Nat} {p q : List Nat} :
    Before (i :: p) (j :: q) ↔ i < j ∨ i = j ∧ Before p q :=
  List.cons_lex_cons_iff

theorem Before.not_before {p q : List Nat} (h : Before p q) : ¬ Before q p :=
  List.lex_asymm Nat.lt_asymm h

theorem not_before_self (p : List Nat) : ¬ Before p p :=
  List.lex_irrefl Nat.lt_irrefl p

/-- The list holds what is met at the positions, in the order of these. -/
def InOrder {α : Type} (met : List Nat → α → Prop) (l : List α) : Prop :=
  ∃ placed : List (List Nat × α), placed.map Prod.snd = l ∧
    placed.Pairwise (fun x y => Before x.1 y.1) ∧
      ∀ position a, (position, a) ∈ placed ↔ met position a

namespace InOrder

variable {α β : Type}

theorem nil {met : List Nat → α → Prop} (h : ∀ position a, ¬ met position a) :
    InOrder met [] :=
  ⟨[], rfl, .nil, fun position a => ⟨nofun, fun hm => absurd hm (h position a)⟩⟩

theorem singleton {met : List Nat → α → Prop} {a : α}
    (h : ∀ position b, met position b ↔ position = [] ∧ b = a) : InOrder met [a] := by
  refine ⟨[([], a)], rfl, List.pairwise_singleton _ _, fun position b => ?_⟩
  rw [h position b, List.mem_singleton, Prod.mk.injEq]

theorem mem_iff {met : List Nat → α → Prop} {l : List α} (h : InOrder met l) {a : α} :
    a ∈ l ↔ ∃ position, met position a := by
  obtain ⟨placed, rfl, -, hmem⟩ := h
  rw [List.mem_map]
  constructor
  · rintro ⟨⟨position, b⟩, hx, rfl⟩
    exact ⟨position, (hmem position b).1 hx⟩
  · rintro ⟨position, ha⟩
    exact ⟨(position, a), (hmem position a).2 ha, rfl⟩

theorem congr {met met' : List Nat → α → Prop} {l : List α} (h : InOrder met l)
    (heq : ∀ position a, met position a ↔ met' position a) : InOrder met' l := by
  obtain ⟨placed, hl, hsorted, hmem⟩ := h
  exact ⟨placed, hl, hsorted, fun position a => (hmem position a).trans (heq position a)⟩

/-- What is left away from a list leaves the rest in its order. -/
theorem filterMap {met : List Nat → α → Prop} {l : List α} (h : InOrder met l)
    (f : α → Option β) :
    InOrder (fun position b => ∃ a, met position a ∧ f a = some b) (l.filterMap f) := by
  obtain ⟨placed, rfl, hsorted, hmem⟩ := h
  refine ⟨placed.filterMap fun x => (f x.2).map (x.1, ·), ?_, ?_, fun position b => ?_⟩
  · rw [List.map_filterMap, List.filterMap_map]
    refine congrArg (fun g => placed.filterMap g) (funext fun x => ?_)
    show ((f x.2).map (x.1, ·)).map Prod.snd = f x.2
    cases f x.2 <;> rfl
  · rw [List.pairwise_filterMap]
    refine hsorted.imp fun {x y} hlt u hu v hv => ?_
    obtain ⟨b, -, rfl⟩ := Option.map_eq_some_iff.1 hu
    obtain ⟨c, -, rfl⟩ := Option.map_eq_some_iff.1 hv
    exact hlt
  · rw [List.mem_filterMap]
    constructor
    · rintro ⟨⟨q, a⟩, hx, hb⟩
      obtain ⟨c, hc, heq⟩ := Option.map_eq_some_iff.1 hb
      obtain ⟨rfl, rfl⟩ := Prod.mk.inj heq
      exact ⟨a, (hmem q a).1 hx, hc⟩
    · rintro ⟨a, ha, hb⟩
      exact ⟨(position, a), (hmem position a).2 ha, Option.map_eq_some_iff.2 ⟨b, hb, rfl⟩⟩

/-- Lists that are in order, one after the other, when each position starts with the place of
its list. The places are counted from `n` on. -/
theorem flatMap_from {met : α → List Nat → β → Prop} {f : α → List β} :
    ∀ (as : List α) (n : Nat), (∀ a ∈ as, InOrder (met a) (f a)) →
      InOrder (fun position b => ∃ i a rest, position = (n + i) :: rest ∧ as[i]? = some a ∧
        met a rest b) (as.flatMap f)
  | [], n, _ => nil fun position b ⟨i, a, rest, _, ha, _⟩ => by simp at ha
  | a :: as, n, h => by
    obtain ⟨first, hfirst, hsorted, hmem⟩ := h a List.mem_cons_self
    obtain ⟨later, hlater, hsorted', hmem'⟩ :=
      flatMap_from as (n + 1) fun b hb => h b (List.mem_cons_of_mem _ hb)
    -- the positions of the first list start with `n`, all later ones with more
    refine ⟨first.map (fun x => (n :: x.1, x.2)) ++ later, ?_, ?_, fun position b => ?_⟩
    · rw [List.map_append, List.map_map, List.flatMap_cons, hlater, ← hfirst]
      rfl
    · rw [List.pairwise_append, List.pairwise_map]
      refine ⟨hsorted.imp fun hlt => before_cons_iff.2 (.inr ⟨rfl, hlt⟩), hsorted', ?_⟩
      intro x hx y hy
      obtain ⟨u, -, rfl⟩ := List.mem_map.1 hx
      obtain ⟨i, a', rest, heq, -, -⟩ := (hmem' y.1 y.2).1 hy
      rw [heq]
      exact before_cons_iff.2 (.inl (by omega))
    · rw [List.mem_append, List.mem_map, hmem' position b]
      constructor
      · rintro (⟨⟨rest, c⟩, hx, heq⟩ | ⟨i, a', rest, rfl, ha', hb⟩)
        · obtain ⟨rfl, rfl⟩ := Prod.mk.inj heq
          exact ⟨0, a, rest, rfl, rfl, (hmem rest c).1 hx⟩
        · exact ⟨i + 1, a', rest, by rw [Nat.add_assoc, Nat.add_comm 1 i], ha', hb⟩
      · rintro ⟨i, a', rest, rfl, ha', hb⟩
        cases i with
        | zero =>
          obtain rfl : a = a' := Option.some.inj ha'
          exact .inl ⟨(rest, b), (hmem rest b).2 hb, rfl⟩
        | succ i =>
          exact .inr ⟨i, a', rest, by rw [Nat.add_assoc, Nat.add_comm 1 i], ha', hb⟩

/-- Lists that are in order, one after the other, when each position starts with the place of
its list. -/
theorem flatMap {met : α → List Nat → β → Prop} {f : α → List β} {as : List α}
    (h : ∀ a ∈ as, InOrder (met a) (f a)) :
    InOrder (fun position b => ∃ i a rest, position = i :: rest ∧ as[i]? = some a ∧
      met a rest b) (as.flatMap f) := by
  have hfrom := flatMap_from as 0 h
  simp only [Nat.zero_add] at hfrom
  exact hfrom

end InOrder

namespace Context

/-! ### What is reachable -/

/-- The annotation `b` is written on the class of the annotation `a`, and `a` is neither
ignored nor the annotation that adds a field. -/
structure Carries (ctx : Context) (a b : Annotation) : Prop where
  notIgnored : ctx.markers.isIgnored a.type = false
  notDirective : a.type ≠ ctx.markers.addField
  written : ∃ c, ctx.index.class? a.type = some c ∧ b ∈ c.annotations

/-- The annotations of a list, and those that reachable annotations carry. -/
inductive Reachable (ctx : Context) (annotations : List Annotation) : Annotation → Prop
  | listed {a : Annotation} (hmem : a ∈ annotations) : Reachable ctx annotations a
  | carried {a b : Annotation} (ha : Reachable ctx annotations a) (hb : ctx.Carries a b) :
      Reachable ctx annotations b

/-- A use of the annotation that adds a field, unless that is ignored. -/
structure AddsField (ctx : Context) (a : Annotation) : Prop where
  notIgnored : ctx.markers.isIgnored a.type = false
  directive : a.type = ctx.markers.addField

/-- What the walk meets at a position from an annotation on. It turns back at the classes on
the path; a position says which annotation of each entered class is next. -/
inductive MeetsAt (ctx : Context) :
    List String → Annotation → List Nat → CompositionEvent → Prop
  | directive {path : List String} {a : Annotation} (ha : ctx.AddsField a) :
      MeetsAt ctx path a [] (.directive a)
  | cycle {path : List String} {a : Annotation}
      (hignored : ctx.markers.isIgnored a.type = false)
      (hdirective : a.type ≠ ctx.markers.addField) (hpath : a.type ∈ path) :
      MeetsAt ctx path a [] (.cycle a.type path)
  | inside {path : List String} {a b : Annotation} {c : ClassDecl} {i : Nat}
      {position : List Nat} {event : CompositionEvent}
      (hignored : ctx.markers.isIgnored a.type = false)
      (hdirective : a.type ≠ ctx.markers.addField) (hpath : a.type ∉ path)
      (hclass : ctx.index.class? a.type = some c) (hb : c.annotations[i]? = some b)
      (hmeets : MeetsAt ctx (path ++ [a.type]) b position event) :
      MeetsAt ctx path a (i :: position) event

variable {ctx : Context}

/-- A list reaches what its annotations reach, one by one. -/
theorem reachable_iff_exists_mem {annotations : List Annotation} {d : Annotation} :
    ctx.Reachable annotations d ↔ ∃ a ∈ annotations, ctx.Reachable [a] d := by
  constructor
  · intro h
    induction h with
    | @listed a hmem => exact ⟨a, hmem, .listed List.mem_cons_self⟩
    | carried _ hb ih =>
      obtain ⟨a, hmem, ha⟩ := ih
      exact ⟨a, hmem, .carried ha hb⟩
  · rintro ⟨a, hmem, h⟩
    induction h with
    | listed ha =>
      obtain rfl := List.mem_singleton.1 ha
      exact .listed hmem
    | carried _ hb ih => exact .carried ih hb

/-! ### The walk in order -/

section Walk

variable {path : List String} {a : Annotation} {c : ClassDecl}

theorem walkComposition_of_ignored (h : ctx.markers.isIgnored a.type = true) :
    ctx.walkComposition path a = [] := by
  rw [walkComposition, if_pos h]

theorem walkComposition_of_directive (h : ctx.AddsField a) :
    ctx.walkComposition path a = [.directive a] := by
  rw [walkComposition, if_neg (Bool.eq_false_iff.1 h.notIgnored), if_pos h.directive]

theorem walkComposition_of_mem (hignored : ctx.markers.isIgnored a.type = false)
    (hdirective : a.type ≠ ctx.markers.addField) (hpath : a.type ∈ path) :
    ctx.walkComposition path a = [.cycle a.type path] := by
  rw [walkComposition, if_neg (Bool.eq_false_iff.1 hignored), if_neg hdirective, dif_pos hpath]

theorem walkComposition_of_not_class (hignored : ctx.markers.isIgnored a.type = false)
    (hdirective : a.type ≠ ctx.markers.addField) (hpath : a.type ∉ path)
    (hclass : ctx.index.class? a.type = none) : ctx.walkComposition path a = [] := by
  rw [walkComposition, if_neg (Bool.eq_false_iff.1 hignored), if_neg hdirective, dif_neg hpath]
  split
  · rfl
  · rename_i c hc
    rw [hclass] at hc
    cases hc

theorem walkComposition_of_class (hignored : ctx.markers.isIgnored a.type = false)
    (hdirective : a.type ≠ ctx.markers.addField) (hpath : a.type ∉ path)
    (hclass : ctx.index.class? a.type = some c) :
    ctx.walkComposition path a = c.annotations.flatMap (ctx.walkComposition (path ++ [a.type])) := by
  rw [walkComposition, if_neg (Bool.eq_false_iff.1 hignored), if_neg hdirective, dif_neg hpath]
  split
  · rename_i hc
    rw [hclass] at hc
    cases hc
  · rename_i c' hc
    rw [hclass] at hc
    obtain rfl := Option.some.inj hc
    rfl

end Walk

/-- **The walk is everything that is met, in the order of the positions.** -/
theorem inOrder_walkComposition (path : List String) (a : Annotation) :
    InOrder (ctx.MeetsAt path a) (ctx.walkComposition path a) := by
  induction path, a using walkComposition.induct ctx with
  | case1 path a hignored =>
    -- an ignored annotation: nothing is met
    rw [walkComposition_of_ignored hignored]
    refine .nil fun position event h => ?_
    cases h with
    | directive ha => rw [ha.notIgnored] at hignored; cases hignored
    | cycle hig => rw [hig] at hignored; cases hignored
    | inside hig => rw [hig] at hignored; cases hignored
  | case2 path a hignored hdirective =>
    have ha : ctx.AddsField a := ⟨Bool.eq_false_iff.2 hignored, hdirective⟩
    rw [walkComposition_of_directive ha]
    refine .singleton fun position event => ⟨fun h => ?_, ?_⟩
    · cases h with
      | directive => exact ⟨rfl, rfl⟩
      | cycle _ hne => exact absurd hdirective hne
      | inside _ hne => exact absurd hdirective hne
    · rintro ⟨rfl, rfl⟩
      exact .directive ha
  | case3 path a hignored hdirective hpath =>
    -- the class is on the path: a return is met, and nothing behind it
    have hig := Bool.eq_false_iff.2 hignored
    rw [walkComposition_of_mem hig hdirective hpath]
    refine .singleton fun position event => ⟨fun h => ?_, ?_⟩
    · cases h with
      | directive ha => exact absurd ha.directive hdirective
      | cycle => exact ⟨rfl, rfl⟩
      | inside _ _ hnew => exact absurd hpath hnew
    · rintro ⟨rfl, rfl⟩
      exact .cycle hig hdirective hpath
  | case4 path a hignored hdirective hpath hclass =>
    have hig := Bool.eq_false_iff.2 hignored
    rw [walkComposition_of_not_class hig hdirective hpath hclass]
    refine .nil fun position event h => ?_
    cases h with
    | directive ha => exact hdirective ha.directive
    | cycle _ _ hmem => exact hpath hmem
    | inside _ _ _ hc =>
      rw [hclass] at hc
      cases hc
  | case5 path a hignored hdirective hpath c hclass ih =>
    -- the class is entered: its annotations are walked in turn, each at its place
    have hig := Bool.eq_false_iff.2 hignored
    rw [walkComposition_of_class hig hdirective hpath hclass]
    refine (InOrder.flatMap fun b _ => ih b).congr fun position event => ?_
    constructor
    · rintro ⟨i, b, rest, rfl, hb, hmeets⟩
      exact .inside hig hdirective hpath hclass hb hmeets
    · intro h
      cases h with
      | directive ha => exact absurd ha.directive hdirective
      | cycle _ _ hmem => exact absurd hmem hpath
      | inside _ _ _ hclass' hb hmeets =>
        rw [hclass] at hclass'
        obtain rfl := Option.some.inj hclass'
        exact ⟨_, _, _, rfl, hb, hmeets⟩

/-! ### Turning back loses no directive -/

/-- A directive that is met adds a field, and is reachable where the walk to it started from
something reachable. -/
theorem MeetsAt.directive_spec {annotations : List Annotation} {path : List String}
    {a d : Annotation} {position : List Nat}
    (h : ctx.MeetsAt path a position (.directive d)) (ha : ctx.Reachable annotations a) :
    ctx.Reachable annotations d ∧ ctx.AddsField d := by
  generalize hevent : CompositionEvent.directive d = event at h
  induction h with
  | directive hadds =>
    cases hevent
    exact ⟨ha, hadds⟩
  | cycle => cases hevent
  | inside hignored hdirective _ hclass hb _ ih =>
    have hcarries := List.mem_of_getElem? hb
    exact ih (.carried ha ⟨hignored, hdirective, _, hclass, hcarries⟩) hevent

/-- The annotation `d` is carried at the end of a way from `a` that enters no class on the
path. The way may enter other classes more than once. -/
inductive ReachesOff (ctx : Context) (path : List String) : Annotation → Annotation → Prop
  | here {a : Annotation} : ReachesOff ctx path a a
  | enter {a b d : Annotation} (hcarries : ctx.Carries a b) (hpath : a.type ∉ path)
      (h : ReachesOff ctx path b d) : ReachesOff ctx path a d

theorem ReachesOff.snoc {path : List String} {a b d : Annotation}
    (h : ctx.ReachesOff path a b) (hb : ctx.Carries b d) (hpath : b.type ∉ path) :
    ctx.ReachesOff path a d := by
  induction h with
  | here => exact .enter hb hpath .here
  | enter hcarries hnew _ ih => exact .enter hcarries hnew (ih hb hpath)

/-- A way that ends behind the class `t` either never enters it, or its rest from the last
time on is a way from an annotation of that class. -/
theorem ReachesOff.cut {path : List String} {a d : Annotation} {t : String} {c : ClassDecl}
    (hclass : ctx.index.class? t = some c) (h : ctx.ReachesOff path a d) :
    ctx.ReachesOff (path ++ [t]) a d ∨
      ∃ b ∈ c.annotations, ctx.ReachesOff (path ++ [t]) b d := by
  induction h with
  | here => exact .inl .here
  | @enter a b d hcarries hpath _ ih =>
    rcases ih with hrest | hlater
    · by_cases ht : a.type = t
      · -- the way enters `t` here for the last time
        obtain ⟨c', hc', hb⟩ := hcarries.written
        rw [ht, hclass] at hc'
        obtain rfl := Option.some.inj hc'
        exact .inr ⟨b, hb, hrest⟩
      · refine .inl (.enter hcarries ?_ hrest)
        rw [List.mem_append, List.mem_singleton]
        exact not_or.2 ⟨hpath, ht⟩
    · exact .inr hlater

/-- The walk meets a directive to which there is a way that enters no class on the path. -/
theorem ReachesOff.exists_meetsAt {d : Annotation} (hd : ctx.AddsField d) (path : List String)
    (a : Annotation) (h : ctx.ReachesOff path a d) :
    ∃ position, ctx.MeetsAt path a position (.directive d) := by
  -- every class that is entered leaves fewer declared classes off the path
  induction hn : (ctx.index.remaining path).length using Nat.strongRecOn generalizing path a with
  | ind n ih =>
    subst hn
    cases h with
    | here => exact ⟨[], .directive hd⟩
    | @enter _ b _ hcarries hpath hrest =>
      obtain ⟨c, hclass, hb⟩ := hcarries.written
      have hcut : ∃ b ∈ c.annotations, ctx.ReachesOff (path ++ [a.type]) b d := by
        rcases hrest.cut hclass with hrest | hrest
        · exact ⟨b, hb, hrest⟩
        · exact hrest
      obtain ⟨b', hb', hrest'⟩ := hcut
      have hless : (ctx.index.remaining (path ++ [a.type])).length <
          (ctx.index.remaining path).length :=
        DeclarationIndex.remaining_length_lt hclass hpath fun m => by simp [or_comm]
      obtain ⟨position, hmeets⟩ := ih _ hless (path ++ [a.type]) b' hrest' rfl
      obtain ⟨i, hi⟩ := List.getElem?_of_mem hb'
      exact ⟨i :: position, .inside hcarries.notIgnored hcarries.notDirective hpath hclass hi
        hmeets⟩

theorem Reachable.reachesOff {annotations : List Annotation} {d : Annotation}
    (h : ctx.Reachable annotations d) : ∃ a ∈ annotations, ctx.ReachesOff [] a d := by
  induction h with
  | @listed a hmem => exact ⟨a, hmem, .here⟩
  | carried _ hb ih =>
    obtain ⟨a, hmem, hway⟩ := ih
    exact ⟨a, hmem, hway.snoc hb List.not_mem_nil⟩

/-- **Turning back loses no directive.**  From an annotation on, the walk meets exactly the
reachable directives. -/
theorem exists_meetsAt_directive {a d : Annotation} :
    (∃ position, ctx.MeetsAt [] a position (.directive d)) ↔
      ctx.Reachable [a] d ∧ ctx.AddsField d := by
  constructor
  · rintro ⟨position, h⟩
    exact h.directive_spec (.listed List.mem_cons_self)
  · rintro ⟨hreach, hd⟩
    obtain ⟨a', hmem, hway⟩ := hreach.reachesOff
    obtain rfl := List.mem_singleton.1 hmem
    exact hway.exists_meetsAt hd [] a'

end Context

end ModelForge
