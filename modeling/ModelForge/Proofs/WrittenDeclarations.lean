/-
The classes of a file are written where they are declared.

A name is written by its simple names if it has been claimed for its class.  A file claims the
names of its own classes before anything else is spelled, and a claim is never lost:

* `Naming.Keeps` — a computation leaves every simple name with the class it was claimed for;
* `Imports.reference_of_claimed` — a class that has claimed its name is written by it;
* `File.Declares` — a line of the file starts the declaration of a class.

So each kind of file declares the class it is made for: `declares_dataClass`,
`declares_builder` and, for a union and the smaller one beside it, `declares_failureUnion`.
-/
import Mathlib.Data.List.Basic
import ModelForge.Kotlin.Printer

namespace ModelForge.Kotlin

/-! ### Claims -/

namespace Naming

variable {α β : Type}

/-- Every simple name stays with the class that it was claimed for. -/
structure Keeps (r : Naming α) : Prop where
  lookup : ∀ {i : Imports} {name owner : String}, i.claimed.lookup name = some owner →
    (r.run i).2.claimed.lookup name = some owner

theorem keeps_pure (a : α) : Keeps (pure a) :=
  ⟨id⟩

theorem Keeps.bind {r : Naming α} {f : α → Naming β} (h : Keeps r) (hf : ∀ a, Keeps (f a)) :
    Keeps (r >>= f) :=
  ⟨fun hclaimed => (hf _).lookup (h.lookup hclaimed)⟩

theorem keeps_mapM {f : α → Naming β} (hf : ∀ a, Keeps (f a)) (as : List α) :
    Keeps (as.mapM f) := by
  induction as with
  | nil => exact keeps_pure []
  | cons a as ih =>
    rw [List.mapM_cons]
    exact (hf a).bind fun _ => ih.bind fun _ => keeps_pure _

theorem keeps_forM {f : α → Naming PUnit} (hf : ∀ a, Keeps (f a)) (as : List α) :
    Keeps (as.forM f) := by
  induction as with
  | nil => exact keeps_pure _
  | cons a as ih => exact (hf a).bind fun _ => ih

end Naming

namespace Imports

open Naming

/-- A claim is the one that was there before, or else the new one. -/
theorem lookup_claim_eq (i : Imports) (name owner n : String) :
    (i.claim name owner).claimed.lookup n =
      (i.claimed.lookup n).or (if n = name then some owner else none) := by
  unfold claim
  split
  · rename_i other hother
    by_cases hn : n = name
    · rw [hn, hother, Option.some_or]
    · rw [if_neg hn, Option.or_none]
  · rename_i hnone
    rw [List.lookup_cons]
    by_cases hn : n = name
    · rw [hn, hnone, beq_self_eq_true, if_pos rfl]
      rfl
    · rw [beq_eq_false_iff_ne.2 hn, if_neg hn, Option.or_none]

/-- A claim takes no name away from another class. -/
theorem lookup_claim {i : Imports} {name owner : String} (first other : String)
    (h : i.claimed.lookup name = some owner) :
    (i.claim first other).claimed.lookup name = some owner := by
  rw [lookup_claim_eq, h, Option.some_or]

theorem claimed_add (i : Imports) (name : String) : (i.add name).claimed = i.claimed := by
  unfold add
  split
  · rfl
  · rfl

theorem keeps_declare (t : TypeName) : Keeps (declare t) := by
  unfold declare
  split
  · exact keeps_pure _
  · exact ⟨fun h => lookup_claim _ _ h⟩

theorem keeps_shadow (t : TypeName) : Keeps (shadow t) :=
  ⟨fun h => lookup_claim _ _ h⟩

/-- What a reference to a class of a package comes to: a name that is claimed is looked up, and
one that is not is claimed, and imported if the package is not visible. -/
theorem run_reference {t : TypeName} {first : String} {others : List String}
    (hnames : t.simpleNames = first :: others) (hpackage : t.package ≠ "") (i : Imports) :
    (reference t).run i = match i.claimed.lookup first with
      | some owner => (⟨t.package, t.simpleNames, decide (owner ≠ t.topLevelName)⟩, i)
      | none => (⟨t.package, t.simpleNames, false⟩,
        if i.isVisible t.package then i.claim first t.topLevelName
        else (i.claim first t.topLevelName).add t.topLevelName) := by
  unfold reference
  simp only [hnames, hpackage, if_false]
  show (match i.claimed.lookup first with
    | some owner => if owner = t.topLevelName then pure _ else pure _
    | none => set _ >>= fun _ => pure _ : Naming ClassUse).run i = _
  cases i.claimed.lookup first with
  | some owner =>
    dsimp only
    split
    · simp [*]
      rfl
    · simp [*]
      rfl
  | none => rfl

/-- What has no names, or is in no package, is written as it is and claims nothing. -/
theorem run_reference_unclaimed {t : TypeName} (h : t.simpleNames = [] ∨ t.package = "")
    (i : Imports) : (reference t).run i = (⟨t.package, t.simpleNames, false⟩, i) := by
  unfold reference
  cases hnames : t.simpleNames with
  | nil => rfl
  | cons first others =>
    have hpackage : t.package = "" := h.resolve_left (by rw [hnames]; exact List.cons_ne_nil _ _)
    simp only [hpackage, if_true]
    rfl

/-- A class either claims nothing, or it has a name and a package. -/
theorem unclaimed_or_claims (t : TypeName) : (t.simpleNames = [] ∨ t.package = "") ∨
    ∃ first others, t.simpleNames = first :: others ∧ t.package ≠ "" := by
  by_cases hpackage : t.package = ""
  · exact .inl (.inr hpackage)
  · cases t.simpleNames with
    | nil => exact .inl (.inl rfl)
    | cons first others => exact .inr ⟨first, others, rfl, hpackage⟩

theorem keeps_reference (t : TypeName) : Keeps (reference t) := by
  refine ⟨fun {i name owner} h => ?_⟩
  rcases unclaimed_or_claims t with hunclaimed | ⟨first, others, hnames, hpackage⟩
  · rwa [run_reference_unclaimed hunclaimed]
  · -- only a name that nobody has is claimed, and importing claims nothing
    rw [run_reference hnames hpackage]
    cases i.claimed.lookup first with
    | some _ => exact h
    | none =>
      have hclaim := lookup_claim first t.topLevelName h
      dsimp only
      split
      · exact hclaim
      · rw [claimed_add]
        exact hclaim

/-- A class that has claimed its name is written by it. -/
theorem reference_of_claimed {i : Imports} {package name : String}
    (h : i.claimed.lookup name = some (TypeName.simple package name).topLevelName) :
    ((reference (.simple package name)).run i).1 = ⟨package, [name], false⟩ := by
  by_cases hpackage : package = ""
  · subst hpackage
    rfl
  · have hrun := run_reference (t := .simple package name) rfl hpackage i
    rw [hrun, h]
    simp [TypeName.simple]

mutual

theorem keeps_render : ∀ t : TypeName, Keeps (render t)
  | .mk package simpleNames arguments nullable => by
    rw [render]
    exact (keeps_reference _).bind fun _ => (keeps_renderList arguments).bind fun _ => keeps_pure _

theorem keeps_renderArgument : ∀ a : Option TypeName, Keeps (renderArgument a)
  | none => by
    rw [renderArgument]
    exact keeps_pure none
  | some t => by
    rw [renderArgument]
    exact (keeps_render t).bind fun _ => keeps_pure _

theorem keeps_renderList : ∀ as : List (Option TypeName), Keeps (renderList as)
  | [] => by
    rw [renderList]
    exact keeps_pure []
  | a :: as => by
    rw [renderList]
    exact (keeps_renderArgument a).bind fun _ => (keeps_renderList as).bind fun _ => keeps_pure _

end

theorem lookup_declare {i : Imports} {package name : String} (h : i.claimed.lookup name = none) :
    ((declare (.simple package name)).run i).2.claimed.lookup name =
      some (TypeName.simple package name).topLevelName := by
  show (i.claim name (TypeName.simple package name).topLevelName).claimed.lookup name = _
  rw [lookup_claim_eq, h, if_pos rfl, Option.none_or]

end Imports

/-! ### Lines of declarations -/

/-- One of the lines starts the declaration of a class of this name: after the name comes its
end, or something that cannot belong to it. -/
def DeclaredIn (lines : List Line) (name : String) : Prop :=
  ∃ line ∈ lines, line.depth = 0 ∧ ∃ head ∈ ["sealed interface ", "data class ", "class "],
    ∃ tail, line.text = head ++ name ++ tail ∧ ∀ c ∈ tail.toList.head?, c = ' ' ∨ c = '('

/-- One of the file's lines starts the declaration of the class, by its simple name. -/
def File.Declares (f : File) (t : TypeName) : Prop :=
  DeclaredIn f.spelled.1.lines t.simpleName

theorem declaredIn_classHead {use : ClassUse} {package name : String}
    (huse : use = ⟨package, [name], false⟩) (fields : List String) (rest : List Line) :
    DeclaredIn (classHead use fields ++ rest) name := by
  subst huse
  unfold classHead
  split
  · refine ⟨_, List.mem_cons_self, rfl, "class ", by decide, "() \x7b", rfl, ?_⟩
    exact fun c hc => .inr (Option.some.inj hc).symm
  · rename_i hfields
    unfold listLines
    rw [if_neg hfields]
    refine ⟨_, List.mem_cons_self, rfl, "data class ", by decide, "(", rfl, ?_⟩
    exact fun c hc => .inr (Option.some.inj hc).symm

theorem declaredIn_union {u : FailureUnion ClassUse TypeUse} {package name : String}
    (huse : u.name = ⟨package, [name], false⟩) : DeclaredIn u.lines name := by
  unfold FailureUnion.lines
  rw [huse]
  split
  · refine ⟨_, List.mem_cons_self, rfl, "sealed interface ", by decide, "", ?_, ?_⟩
    · rw [String.append_empty]
      rfl
    · nofun
  · refine ⟨_, List.mem_cons_self, rfl, "sealed interface ", by decide, " \x7b", rfl, ?_⟩
    exact fun c hc => .inl (Option.some.inj hc).symm

theorem declaredIn_required {u : FailureUnion ClassUse TypeUse} {package name : String}
    (huse : u.required = some ⟨package, [name], false⟩) : DeclaredIn u.lines name := by
  unfold FailureUnion.lines
  rw [huse]
  refine ⟨_, List.mem_append_right _ (List.mem_cons_of_mem _ List.mem_cons_self), rfl,
    "sealed interface ", by decide, " : " ++ u.name.display, ?_, ?_⟩
  · exact String.append_assoc
  · rw [String.toList_append]
    exact fun c hc => .inl (Option.some.inj hc).symm

/-! ### Files -/

open Imports Naming

variable {f : File} {package name : String}

/-- What has been declared is written by its simple name, whatever is spelled in between. -/
theorem reference_of_declared {α : Type} {r : Naming α} {i : Imports} (hr : Keeps r)
    (hi : i.claimed.lookup name = none) :
    ((reference (.simple package name)).run
      (r.run ((declare (.simple package name)).run i).2).2).1 = ⟨package, [name], false⟩ :=
  reference_of_claimed (hr.lookup (lookup_declare hi))

theorem keeps_spellParameter (p : Parameter TypeName) : Keeps p.spell :=
  (keeps_render p.type).bind fun _ => keeps_pure _

theorem declares_dataClass {d : DataClass TypeName TypeName} (h : f.content = .dataClass d)
    (hname : d.name = .simple package name) : f.Declares (.simple package name) := by
  have hspelled : f.spelled.1 = .dataClass (d.spell.run (.start f.package)).1 := by
    unfold File.spelled
    rw [h]
    rfl
  have huse : (d.spell.run (.start f.package)).1.name = ⟨package, [name], false⟩ := by
    show ((reference d.name).run ((d.fields.mapM Parameter.spell).run
      ((declare d.name).run (.start f.package)).2).2).1 = _
    rw [hname]
    exact reference_of_declared (keeps_mapM keeps_spellParameter d.fields) rfl
  unfold File.Declares
  rw [hspelled, Content.lines, DataClass.lines, List.append_assoc]
  exact declaredIn_classHead huse _ _

theorem declares_builder {b : Builder TypeName TypeName} (h : f.content = .builder b)
    (hname : b.name = .simple package name) : f.Declares (.simple package name) := by
  have hspelled : f.spelled.1 = .builder (b.spell.run (.start f.package)).1 := by
    unfold File.spelled
    rw [h]
    rfl
  have huse : (b.spell.run (.start f.package)).1.name = ⟨package, [name], false⟩ := by
    show ((reference b.name).run ((b.staged.mapM Parameter.spell).run
      ((declare b.name).run (.start f.package)).2).2).1 = _
    rw [hname]
    exact reference_of_declared (keeps_mapM keeps_spellParameter b.staged) rfl
  unfold File.Declares
  rw [hspelled, Content.lines, Builder.lines]
  simp only [List.append_assoc]
  exact declaredIn_classHead huse _ _

theorem keeps_spellVariant (v : Variant TypeName TypeName) : Keeps v.spell :=
  (keeps_reference v.parent).bind fun _ => (keeps_render v.payload).bind fun _ => keeps_pure _

/-- Between the claims of a union and the spelling of the smaller one nothing is lost. -/
theorem keeps_spellVariants (u : FailureUnion TypeName TypeName) :
    Keeps (reference u.name >>= fun _ =>
      (u.variants.forM fun v => shadow (u.name.nested v.name)) >>= fun _ =>
      u.variants.mapM Variant.spell) := by
  refine (keeps_reference u.name).bind fun _ => ?_
  refine (keeps_forM (fun v => keeps_shadow _) u.variants).bind fun _ => ?_
  exact keeps_mapM keeps_spellVariant u.variants

/-- A union is declared, and so is the smaller union beside it if it has another name. -/
theorem declares_failureUnion {u : FailureUnion TypeName TypeName} (h : f.content = .failureUnion u)
    (hname : u.name = .simple package name) :
    f.Declares (.simple package name) ∧ ∀ {other : String}, other ≠ name →
      u.required = some (.simple package other) → f.Declares (.simple package other) := by
  have hspelled : f.spelled.1 = .failureUnion (u.spell.run (.start f.package)).1 := by
    unfold File.spelled
    rw [h]
    rfl
  unfold File.Declares
  rw [hspelled, Content.lines]
  refine ⟨?_, fun {other} hne hrequired => ?_⟩
  · have huse : (u.spell.run (.start f.package)).1.name = ⟨package, [name], false⟩ := by
      show ((reference u.name).run ((u.required.forM declare).run
        ((declare u.name).run (.start f.package)).2).2).1 = _
      rw [hname]
      refine reference_of_declared ?_ rfl
      cases u.required with
      | none => exact keeps_pure _
      | some required => exact keeps_declare required
    exact declaredIn_union huse
  · have hkeeps := keeps_spellVariants u
    obtain ⟨_, variants, _⟩ := u
    cases hname
    cases hrequired
    -- the name of the union is the only one that is taken
    have hother : ((declare (.simple package name)).run
        (.start f.package)).2.claimed.lookup other = none := by
      show [(name, _)].lookup other = none
      rw [List.lookup_cons, beq_eq_false_iff_ne.2 hne]
      rfl
    have huse := @reference_of_declared package other _ _ _ hkeeps hother
    exact declaredIn_required (congrArg some huse)

end ModelForge.Kotlin
