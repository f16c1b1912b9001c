/-
The order in which super-interfaces are visited.

The walk over the interfaces that a class extends keeps a record of what it has entered and is
bounded by a number of levels.  Here the same is said without levels:

* `Context.Visits` — one visit after another, depth first: an interface that has been entered
  is passed over, and any other one is finished after the interfaces that it extends;
* `Context.visits_superInterfaces` — the super-interfaces are what such a visit finishes, and
  there is only one (`Visits.unique`);
* `Visits.nodup` and `Context.mem_superInterfaces_iff` — they are exactly the interfaces that the
  class extends directly or by way of others, each of them once.  In a cycle the class itself may
  be among them.
-/
import Mathlib.Data.List.Nodup
import Mathlib.Logic.Relation
import ModelForge.Proofs.InterfaceWalk

namespace ModelForge.Context

variable {ctx : Context} {c : ClassDecl}

/-- With these classes entered, the interfaces `parents` are visited in order. The visit
finishes the classes `order`, and in the end the classes `last` have been entered. -/
inductive Visits (ctx : Context) :
    List String → List ClassDecl → List ClassDecl → List String → Prop
  | nil {entered : List String} : Visits ctx entered [] [] entered
  | seen {entered last : List String} {parent : ClassDecl} {parents order : List ClassDecl}
    (hseen : parent.qualifiedName ∈ entered) (hrest : Visits ctx entered parents order last) :
    Visits ctx entered (parent :: parents) order last
  | enter {entered middle last : List String} {parent : ClassDecl}
    {parents inner order : List ClassDecl} (hnew : parent.qualifiedName ∉ entered)
    (hinner : Visits ctx (parent.qualifiedName :: entered) (ctx.parents parent) inner middle)
    (hrest : Visits ctx middle parents order last) :
    Visits ctx entered (parent :: parents) (inner ++ parent :: order) last

/-- A visit goes one way only. -/
theorem Visits.unique {entered last last' : List String} {parents order order' : List ClassDecl}
    (h : ctx.Visits entered parents order last) (h' : ctx.Visits entered parents order' last') :
    order = order' ∧ last = last' := by
  induction h generalizing order' last' with
  | nil =>
    cases h'
    exact ⟨rfl, rfl⟩
  | seen hseen _ ih =>
    cases h' with
    | seen _ hrest' => exact ih hrest'
    | enter hnew => exact absurd hseen hnew
  | enter hnew _ _ ihInner ihRest =>
    cases h' with
    | seen hseen => exact absurd hseen hnew
    | enter _ hinner' hrest' =>
      obtain ⟨rfl, rfl⟩ := ihInner hinner'
      obtain ⟨rfl, rfl⟩ := ihRest hrest'
      exact ⟨rfl, rfl⟩

/-! ### The walk -/

theorem visits_of_entered {entered : List String} {parents : List ClassDecl}
    (h : ∀ parent ∈ parents, parent.qualifiedName ∈ entered) :
    ctx.Visits entered parents [] entered := by
  induction parents with
  | nil => exact .nil
  | cons parent parents ih =>
    obtain ⟨hparent, hparents⟩ := List.forall_mem_cons.1 h
    exact .seen hparent (ih hparents)

/-- With as many levels as there are classes left to enter, the walk is a visit of the
parents. -/
theorem visits_walkInterfaces (depth : Nat) : ∀ (w : InterfaceWalk) (c : ClassDecl),
    (ctx.index.remaining w.entered).length ≤ depth →
      ∃ order, (ctx.walkInterfaces depth w c).finished = w.finished ++ order ∧
        ctx.Visits w.entered (ctx.parents c) order (ctx.walkInterfaces depth w c).entered := by
  induction depth with
  | zero =>
    intro w c hleft
    -- no class is left, so that every parent has been entered
    refine ⟨[], (List.append_nil _).symm, visits_of_entered fun parent hparent => ?_⟩
    by_contra hnew
    have hlt := remaining_length_cons_lt (class?_of_mem_parents hparent) hnew
    omega
  | succ depth ih =>
    intro w c hleft
    rw [walkInterfaces_succ]
    have hdeclared : ∀ parent ∈ ctx.parents c,
        ctx.index.class? parent.qualifiedName = some parent := fun _ => class?_of_mem_parents
    generalize ctx.parents c = parents at hdeclared ⊢
    induction parents generalizing w with
    | nil => exact ⟨[], (List.append_nil _).symm, .nil⟩
    | cons parent parents ihParents =>
      obtain ⟨hparent, hparents⟩ := List.forall_mem_cons.1 hdeclared
      rw [List.foldl_cons]
      have hleft' : (ctx.index.remaining (ctx.enterParent depth w parent).entered).length ≤
          depth + 1 :=
        Nat.le_trans (remaining_length_le (entered_subset_enterParent depth w parent)) hleft
      obtain ⟨order, hfinished, hvisits⟩ := ihParents _ hleft' hparents
      by_cases hseen : parent.qualifiedName ∈ w.entered
      · have hstep : ctx.enterParent depth w parent = w := if_pos hseen
        rw [hstep] at hfinished hvisits ⊢
        exact ⟨order, hfinished, .seen hseen hvisits⟩
      · have hlt := remaining_length_cons_lt hparent hseen
        obtain ⟨inner, hinner, hvisitsInner⟩ :=
          ih ⟨parent.qualifiedName :: w.entered, w.finished⟩ parent (by
            show (ctx.index.remaining (parent.qualifiedName :: w.entered)).length ≤ depth
            omega)
        have hstep : ctx.enterParent depth w parent =
            { ctx.walkInterfaces depth ⟨parent.qualifiedName :: w.entered, w.finished⟩ parent with
              finished := w.finished ++ inner ++ [parent] } := by
          rw [enterParent, if_neg hseen, ← hinner]
        rw [hstep] at hfinished hvisits ⊢
        refine ⟨inner ++ parent :: order, ?_, .enter hseen hvisitsInner hvisits⟩
        rw [hfinished]
        simp only [List.append_assoc, List.singleton_append]

/-- The super-interfaces of a class are what a visit of its parents finishes. -/
theorem visits_superInterfaces (ctx : Context) (c : ClassDecl) :
    ∃ last, ctx.Visits [] (ctx.parents c) (ctx.superInterfaces c) last := by
  have hleft : (ctx.index.remaining []).length ≤ ctx.index.classes.length := by
    have hle := List.length_filter_le (fun name => decide (name ∉ ([] : List String)))
      ctx.index.classNames
    rw [DeclarationIndex.classNames, List.length_map] at hle
    exact hle
  obtain ⟨order, hfinished, hvisits⟩ := visits_walkInterfaces ctx.index.classes.length {} c hleft
  rw [superInterfaces, hfinished]
  exact ⟨_, hvisits⟩

/-! ### Each once, and all that are extended -/

/-- A visit enters what it finishes, and nothing else. -/
theorem Visits.mem_last_iff {entered last : List String} {parents order : List ClassDecl}
    (h : ctx.Visits entered parents order last) (name : String) :
    name ∈ last ↔ name ∈ entered ∨ name ∈ order.map (·.qualifiedName) := by
  induction h with
  | nil => simp
  | seen _ _ ih => exact ih
  | enter _ _ _ ihInner ihRest =>
    rw [ihRest, ihInner]
    simp only [List.mem_cons, List.map_append, List.map_cons, List.mem_append, or_assoc,
      or_left_comm]

/-- No class is finished twice, and none that had been entered before. -/
theorem Visits.nodup {entered last : List String} {parents order : List ClassDecl}
    (h : ctx.Visits entered parents order last) :
    (order.map (·.qualifiedName)).Nodup ∧ ∀ x ∈ order, x.qualifiedName ∉ entered := by
  induction h with
  | nil => exact ⟨.nil, nofun⟩
  | seen _ _ ih => exact ih
  | @enter entered middle last parent parents inner order hnew hinner _ ihInner ihRest =>
    obtain ⟨hnodupInner, hapartInner⟩ := ihInner
    obtain ⟨hnodupRest, hapartRest⟩ := ihRest
    have hmiddle := hinner.mem_last_iff
    -- what comes later is new to all that has been entered up to there
    have hlater : ∀ x ∈ order, x.qualifiedName ≠ parent.qualifiedName ∧
        x.qualifiedName ∉ entered ∧ x.qualifiedName ∉ inner.map (·.qualifiedName) := by
      intro x hx
      have hnot := hapartRest x hx
      rw [hmiddle, List.mem_cons, not_or, not_or] at hnot
      exact ⟨hnot.1.1, hnot.1.2, hnot.2⟩
    refine ⟨?_, ?_⟩
    · rw [List.map_append, List.map_cons]
      refine hnodupInner.append (List.nodup_cons.2 ⟨?_, hnodupRest⟩) ?_
      · rintro hmem
        obtain ⟨x, hx, heq⟩ := List.mem_map.1 hmem
        exact (hlater x hx).1 heq
      · intro name hname hmem
        obtain ⟨y, hy, rfl⟩ := List.mem_map.1 hname
        rcases List.mem_cons.1 hmem with heq | hmem
        · exact hapartInner y hy (heq ▸ List.mem_cons_self)
        · obtain ⟨x, hx, heq⟩ := List.mem_map.1 hmem
          exact (hlater x hx).2.2 (heq ▸ hname)
    · intro x hx
      rcases List.mem_append.1 hx with hx | hx
      · exact fun hmem => hapartInner x hx (List.mem_cons_of_mem _ hmem)
      · rcases List.mem_cons.1 hx with rfl | hx
        · exact hnew
        · exact (hlater x hx).2.1

/-- The parents, and those of every class that is finished, have been entered in the end. -/
theorem Visits.closed {entered last : List String} {parents order : List ClassDecl}
    (h : ctx.Visits entered parents order last) :
    (∀ parent ∈ parents, parent.qualifiedName ∈ last) ∧
      ∀ x ∈ order, ∀ parent ∈ ctx.parents x, parent.qualifiedName ∈ last := by
  induction h with
  | nil => exact ⟨nofun, nofun⟩
  | seen hseen hrest ih =>
    exact ⟨List.forall_mem_cons.2 ⟨(hrest.mem_last_iff _).2 (.inl hseen), ih.1⟩, ih.2⟩
  | @enter entered middle last parent parents inner order _ hinner hrest ihInner ihRest =>
    have hkept : ∀ name ∈ middle, name ∈ last := fun name hname =>
      (hrest.mem_last_iff name).2 (.inl hname)
    have hparent : parent.qualifiedName ∈ middle :=
      (hinner.mem_last_iff _).2 (.inl List.mem_cons_self)
    refine ⟨List.forall_mem_cons.2 ⟨hkept _ hparent, ihRest.1⟩, fun x hx p hp => ?_⟩
    rcases List.mem_append.1 hx with hx | hx
    · exact hkept _ (ihInner.2 x hx p hp)
    · rcases List.mem_cons.1 hx with rfl | hx
      · exact hkept _ (ihInner.1 p hp)
      · exact ihRest.2 x hx p hp

/-- What holds of the parents and passes on to further parents holds of all classes that a
visit finishes. -/
theorem Visits.forall_mem {holds : ClassDecl → Prop} {entered last : List String}
    {parents order : List ClassDecl} (h : ctx.Visits entered parents order last)
    (hparents : ∀ parent ∈ parents, holds parent)
    (hstep : ∀ x, holds x → ∀ parent ∈ ctx.parents x, holds parent) : ∀ x ∈ order, holds x := by
  induction h with
  | nil => exact nofun
  | seen _ _ ih => exact ih fun p hp => hparents p (List.mem_cons_of_mem _ hp)
  | @enter entered middle last parent parents inner order _ _ _ ihInner ihRest =>
    obtain ⟨hparent, hrest⟩ := List.forall_mem_cons.1 hparents
    intro x hx
    rcases List.mem_append.1 hx with hx | hx
    · exact ihInner (hstep parent hparent) x hx
    · rcases List.mem_cons.1 hx with rfl | hx
      · exact hparent
      · exact ihRest hrest x hx

/-- The super-interfaces of a class are the interfaces that it extends, directly or by way of
others. -/
theorem mem_superInterfaces_iff {x : ClassDecl} :
    x ∈ ctx.superInterfaces c ↔
      Relation.TransGen (fun child parent => parent ∈ ctx.parents child) c x := by
  obtain ⟨last, hvisits⟩ := visits_superInterfaces ctx c
  have hdeclared : ∀ y ∈ ctx.superInterfaces c, ctx.index.class? y.qualifiedName = some y :=
    hvisits.forall_mem (fun _ => class?_of_mem_parents) fun _ _ _ => class?_of_mem_parents
  -- a parent that has been entered is the one finished class of its name
  have hfinished : ∀ {y parent : ClassDecl}, parent ∈ ctx.parents y →
      parent.qualifiedName ∈ last → parent ∈ ctx.superInterfaces c := by
    intro y parent hparent hlast
    rcases (hvisits.mem_last_iff _).1 hlast with hnil | hmem
    · exact absurd hnil List.not_mem_nil
    · obtain ⟨z, hz, hname⟩ := List.mem_map.1 hmem
      have hclass := hdeclared z hz
      rw [hname, class?_of_mem_parents hparent] at hclass
      rw [Option.some.inj hclass]
      exact hz
  constructor
  · exact hvisits.forall_mem (fun _ hparent => .single hparent)
      (fun _ hy _ hparent => hy.tail hparent) x
  · intro hx
    induction hx with
    | single hparent => exact hfinished hparent (hvisits.closed.1 _ hparent)
    | tail _ hparent ih => exact hfinished hparent (hvisits.closed.2 _ ih _ hparent)

end ModelForge.Context
