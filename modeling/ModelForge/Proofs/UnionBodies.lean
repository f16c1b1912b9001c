/-
How the classes in the body of a union are written.

A union claims its own name and that of the smaller union first, and then the names of its variants,
before anything in its body is spelled:

* `FailureUnion.mentions` — the classes that are written in the body, with how each is written;
* `FailureUnion.ownerOf` — the class that the name of a variant belongs to: the names of the union
  and of the smaller one are claimed first, and a variant gets what is left;
* `Naming.GivesFrom` — from a state with certain claims on, a computation comes to something with a
  property, and takes none of them away;
* `Variant.givesFrom_spell` — so in the body a class whose name has been claimed is written in full
  if and only if the name belongs to another one;
* `FailureUnion.isSimple_of_union` — the unions themselves are written by their simple names;
* `FailureUnion.hides_iff` — and so which classes the variants hide.
-/
import ModelForge.Proofs.ImportNames

namespace ModelForge

open Kotlin

namespace Kotlin

/-! ### Claims -/

namespace Imports

/-- What the other state claims as well. -/
def Extends (i j : Imports) : Prop :=
  ∀ {name owner : String}, i.claimed.lookup name = some owner →
    j.claimed.lookup name = some owner

/-- What a declaration claims is the outermost simple name. -/
theorem lookup_declare_eq (t : TypeName) (i : Imports) (n : String) :
    ((declare t).run i).2.claimed.lookup n = (i.claimed.lookup n).or
      (if t.simpleNames.head? = some n then some t.topLevelName else none) := by
  cases hnames : t.simpleNames with
  | nil =>
    have hnone : declare t = pure () := by simp [declare, hnames]
    rw [hnone, List.head?_nil, if_neg (Option.some_ne_none n).symm, Option.or_none]
    rfl
  | cons first others =>
    have hclaim : declare t = modify (·.claim first t.topLevelName) := by simp [declare, hnames]
    rw [hclaim, List.head?_cons]
    show (i.claim first t.topLevelName).claimed.lookup n = _
    rw [lookup_claim_eq]
    simp only [Option.some.injEq, eq_comm]

/-- A reference to a class whose name has been claimed claims nothing. -/
theorem reference_of_lookup {t : TypeName} {i : Imports}
    (h : ∀ name, t.simpleNames.head? = some name → i.claimed.lookup name ≠ none) :
    ((reference t).run i).2 = i := by
  rcases unclaimed_or_claims t with hunclaimed | ⟨first, others, hnames, hpackage⟩
  · rw [run_reference_unclaimed hunclaimed]
  · obtain ⟨owner, howner⟩ := Option.ne_none_iff_exists'.1 (h first (by rw [hnames]; rfl))
    rw [run_reference hnames hpackage, howner]

end Imports

/-! ### Computations from a state on -/

namespace Naming

open Imports

variable {α β : Type} {P : α → Prop} {Q : β → Prop} {i : Imports}

/-- From every state with these claims the computation comes to something with this property, and
the claims are still there afterwards. -/
def GivesFrom (i : Imports) (P : α → Prop) (r : Naming α) : Prop :=
  ∀ j, Extends i j → P (r.run j).1 ∧ Extends i (r.run j).2

theorem givesFrom_of_keeps {r : Naming α} (hkeeps : Keeps r)
    (h : ∀ j, Extends i j → P (r.run j).1) : GivesFrom i P r :=
  fun j hj => ⟨h j hj, fun hclaimed => hkeeps.lookup (hj hclaimed)⟩

theorem givesFrom_pure {a : α} (h : P a) : GivesFrom i P (pure a) :=
  fun _ hj => ⟨h, hj⟩

theorem GivesFrom.bind {r : Naming α} {f : α → Naming β} (h : GivesFrom i P r)
    (hf : ∀ a, P a → GivesFrom i Q (f a)) : GivesFrom i Q (r >>= f) := by
  intro j hj
  obtain ⟨ha, hclaims⟩ := h j hj
  exact hf _ ha _ hclaims

theorem givesFrom_mapM {R : α → β → Prop} {f : α → Naming β} (hf : ∀ a, GivesFrom i (R a) (f a))
    (as : List α) : GivesFrom i (List.Forall₂ R as) (as.mapM f) := by
  induction as with
  | nil => exact givesFrom_pure .nil
  | cons a as ih =>
    rw [List.mapM_cons]
    exact (hf a).bind fun b hb => ih.bind fun bs hbs => givesFrom_pure (.cons hb hbs)

end Naming

open Imports Naming

/-! ### Classes in a body -/

/-- The class is written, and in full if its outermost simple name has been claimed for another
one. -/
structure Mention.WrittenFrom (i : Imports) (m : Mention) : Prop where
  refers : m.use.Refers m.type
  full_iff : ∀ {name owner : String}, i.claimed.lookup name = some owner →
    m.type.simpleNames.head? = some name →
      (m.use.full = true ↔ m.type.package ≠ "" ∧ m.type.topLevelName ≠ owner)

/-- A class is written as itself, and in full if its name belongs to another one. -/
theorem Imports.givesFrom_mention (i : Imports) (t : TypeName) :
    GivesFrom i (fun m => m.type = t ∧ m.WrittenFrom i) (mention t) := by
  refine givesFrom_of_keeps ((keeps_reference t).bind fun _ => keeps_pure _) fun j hj => ?_
  refine ⟨rfl, gives_reference t j, fun {name owner} hclaimed hname => ?_⟩
  obtain ⟨others, hnames⟩ : ∃ others, t.simpleNames = name :: others :=
    List.head?_eq_some_iff.1 hname
  show ((reference t).run j).1.full = true ↔ t.package ≠ "" ∧ t.topLevelName ≠ owner
  by_cases hpackage : t.package = ""
  · -- without a package there is nothing to write in front of the simple names
    rw [run_reference_unclaimed (.inr hpackage)]
    simp [hpackage]
  · rw [run_reference hnames hpackage, hj hclaimed, and_iff_right hpackage, ne_comm]
    exact decide_eq_true_iff

/-- The classes of a type are written in their order. -/
theorem Imports.givesFrom_render (i : Imports) (t : TypeName) :
    GivesFrom i (fun use => List.Forall₂ (fun u m => m.type = u ∧ m.WrittenFrom i) t.classes
      (List.zipWith Mention.mk t.classes use.uses)) (render t) := by
  have hclasses := givesFrom_mapM (givesFrom_mention i) t.classes
  rw [← run_render] at hclasses
  exact hclasses

/-- The classes that are written for a variant: the union that it belongs to, and those of its
payload. -/
def Variant.mentions (v : Variant TypeName TypeName) (w : Variant ClassUse TypeUse) :
    List Mention :=
  ⟨v.parent, w.parent⟩ :: List.zipWith Mention.mk v.payload.classes w.payload.uses

/-- The classes in a variant. -/
def Variant.classes (v : Variant TypeName TypeName) : List TypeName :=
  v.parent :: v.payload.classes

theorem Variant.givesFrom_spell (i : Imports) (v : Variant TypeName TypeName) :
    GivesFrom i (fun w => List.Forall₂ (fun t m => m.type = t ∧ m.WrittenFrom i) v.classes
      (v.mentions w)) v.spell := by
  have hparent : GivesFrom i (fun use => (⟨v.parent, use⟩ : Mention).WrittenFrom i)
      (reference v.parent) := fun j hj =>
    ⟨(givesFrom_mention i v.parent j hj).1.2, (givesFrom_mention i v.parent j hj).2⟩
  refine hparent.bind fun parent hparent => ?_
  refine (givesFrom_render i v.payload).bind fun payload hpayload => ?_
  exact givesFrom_pure (.cons ⟨rfl, hparent⟩ hpayload)

namespace FailureUnion

/-- The classes that are written in the body of the union. -/
def mentions (u : FailureUnion TypeName TypeName) (w : FailureUnion ClassUse TypeUse) :
    List Mention :=
  (List.zipWith Variant.mentions u.variants w.variants).flatten

/-- The classes in the body of the union. -/
def classes (u : FailureUnion TypeName TypeName) : List TypeName :=
  u.variants.flatMap Variant.classes

/-- The full name of the class that a variant's name belongs to: the union or the smaller one, if
one of them is called so, or else the variant. -/
def ownerOf (u : FailureUnion TypeName TypeName) (name : String) : String :=
  match (u.name :: u.required.toList).find? fun t => t.simpleNames.head? = some name with
  | some t => t.topLevelName
  | none => (u.name.nested name).canonicalName

/-- The state in which the body of the union is spelled. -/
def beforeBody (u : FailureUnion TypeName TypeName) (i : Imports) : Imports :=
  ((do
    Imports.declare u.name
    u.required.forM Imports.declare
    let _ ← Imports.reference u.name
    u.variants.forM fun v => Imports.shadow (u.name.nested v.name) : Naming Unit).run i).2

/-- The variants get the names that are left. -/
theorem lookup_shadows (t : TypeName) (vs : List (Variant TypeName TypeName)) (i : Imports)
    (n : String) :
    ((vs.forM fun v => shadow (t.nested v.name)).run i).2.claimed.lookup n =
      (i.claimed.lookup n).or
        (if n ∈ vs.map (·.name) then some (t.nested n).canonicalName else none) := by
  induction vs generalizing i with
  | nil =>
    rw [List.map_nil, if_neg List.not_mem_nil, Option.or_none]
    rfl
  | cons v vs ih =>
    have hsimple : (t.nested v.name).simpleName = v.name := by
      simp [TypeName.simpleName, TypeName.nested, List.getLastD_eq_getLast?]
    show ((vs.forM fun v => shadow (t.nested v.name)).run
      (i.claim (t.nested v.name).simpleName _)).2.claimed.lookup n = _
    rw [ih, hsimple, lookup_claim_eq, Option.or_assoc, List.map_cons]
    congr 1
    by_cases hn : n = v.name
    · subst hn
      simp
    · simp [hn]

/-- The unions get their names first. -/
theorem lookup_declared (u : FailureUnion TypeName TypeName) (package n : String) :
    ((u.required.forM declare).run ((declare u.name).run (.start package)).2).2.claimed.lookup n =
      ((u.name :: u.required.toList).find? fun t => t.simpleNames.head? = some n).map
        (·.topLevelName) := by
  have hname : ((declare u.name).run (.start package)).2.claimed.lookup n =
      if u.name.simpleNames.head? = some n then some u.name.topLevelName else none := by
    rw [lookup_declare_eq]
    exact Option.none_or
  cases u.required with
  | none =>
    show ((declare u.name).run (.start package)).2.claimed.lookup n = _
    rw [hname]
    by_cases h : u.name.simpleNames.head? = some n
    · simp [h]
    · simp [h]
  | some required =>
    show ((declare required).run ((declare u.name).run (.start package)).2).2.claimed.lookup n = _
    rw [lookup_declare_eq, hname]
    by_cases h : u.name.simpleNames.head? = some n
    · simp [h]
    · by_cases hrequired : required.simpleNames.head? = some n
      · simp [h, hrequired]
      · simp [h, hrequired]

/-- Before the body the names of the unions are claimed, and those of the variants that are left. -/
theorem lookup_beforeBody_eq (u : FailureUnion TypeName TypeName) (package n : String) :
    (u.beforeBody (.start package)).claimed.lookup n =
      (((u.name :: u.required.toList).find? fun t => t.simpleNames.head? = some n).map
        (·.topLevelName)).or
          (if n ∈ u.variants.map (·.name) then some (u.name.nested n).canonicalName else none) := by
  have hreference := reference_of_lookup (t := u.name)
    (i := ((u.required.forM declare).run ((declare u.name).run (.start package)).2).2)
    fun name hname => by
      rw [lookup_declared, List.find?_cons_of_pos (by simpa using hname)]
      exact Option.some_ne_none _
  show ((u.variants.forM fun v => shadow (u.name.nested v.name)).run
    ((reference u.name).run ((u.required.forM declare).run
      ((declare u.name).run (.start package)).2).2).2).2.claimed.lookup n = _
  rw [hreference, lookup_shadows, lookup_declared]

/-- Before the body each variant's name has an owner. -/
theorem lookup_beforeBody (u : FailureUnion TypeName TypeName) (package : String)
    {v : Variant TypeName TypeName} (hv : v ∈ u.variants) :
    (u.beforeBody (.start package)).claimed.lookup v.name = some (u.ownerOf v.name) := by
  rw [lookup_beforeBody_eq, if_pos (List.mem_map_of_mem hv), ownerOf]
  cases (u.name :: u.required.toList).find? fun t => t.simpleNames.head? = some v.name with
  | some t => rfl
  | none => rfl

/-- The variants are written in their order, and in each a class whose outermost simple name has
been claimed is written in full if the name belongs to another class. -/
theorem written_variants (u : FailureUnion TypeName TypeName) (package : String) :
    List.Forall₂ (fun v w => List.Forall₂
        (fun t m => m.type = t ∧ m.WrittenFrom (u.beforeBody (.start package))) v.classes
        (v.mentions w))
      u.variants (u.spell.run (.start package)).1.variants :=
  (givesFrom_mapM (Variant.givesFrom_spell (u.beforeBody (.start package))) u.variants
    (u.beforeBody (.start package)) id).1

/-- A class that the name of one of the two unions belongs to is written by its simple names. -/
theorem isSimple_of_union (u : FailureUnion TypeName TypeName) (package : String) {m : Mention}
    (h : m.WrittenFrom (u.beforeBody (.start package))) {n : String}
    (hname : m.type.simpleNames.head? = some n)
    (hunion : (u.name :: u.required.toList).find? (fun t => t.simpleNames.head? = some n) =
      some m.type) : m.IsSimple := by
  have hclaimed : (u.beforeBody (.start package)).claimed.lookup n = some m.type.topLevelName := by
    rw [lookup_beforeBody_eq, hunion]
    rfl
  have hfull := h.full_iff hclaimed hname
  rw [h.refers.isSimple_iff, ← Bool.not_eq_true, hfull]
  exact .inr fun hother => hother.2 rfl

/-- The classes in the body are written in their order, and one whose outermost simple name is that
of a variant is written in full if the name belongs to another class. -/
theorem written_mentions (u : FailureUnion TypeName TypeName) (package : String) :
    List.Forall₂ (fun t m => m.type = t ∧ m.WrittenFrom (u.beforeBody (.start package))) u.classes
      (u.mentions (u.spell.run (.start package)).1) := by
  have hvariants := u.written_variants package
  unfold classes mentions
  generalize u.variants = vs, (u.spell.run (.start package)).1.variants = ws at hvariants ⊢
  induction hvariants with
  | nil => exact .nil
  | cons hv _ ih =>
    rw [List.flatMap_cons, List.zipWith_cons_cons, List.flatten_cons]
    exact List.rel_append hv ih

/-- The class is written by its simple names, and the outermost is that of a variant.  In the body
the name stands for the variant. -/
def Hides (u : FailureUnion TypeName TypeName) (m : Mention) : Prop :=
  m.IsSimple ∧ ∃ v ∈ u.variants, m.type.simpleNames.head? = some v.name

instance (u : FailureUnion TypeName TypeName) : DecidablePred u.Hides := fun m =>
  inferInstanceAs (Decidable (m.use.display = m.type.simpleForm ∧ _))

/-- A class in the body is hidden if it shares its outermost simple name with a variant, and it has
no package or is the one that the name belongs to. -/
theorem hides_iff (u : FailureUnion TypeName TypeName) (package : String) {m : Mention}
    (h : m.WrittenFrom (u.beforeBody (.start package))) :
    u.Hides m ↔ ∃ v ∈ u.variants, m.type.simpleNames.head? = some v.name ∧
      (m.type.package = "" ∨ m.type.topLevelName = u.ownerOf v.name) := by
  have hsimple : ∀ v ∈ u.variants, m.type.simpleNames.head? = some v.name →
      (m.IsSimple ↔ m.type.package = "" ∨ m.type.topLevelName = u.ownerOf v.name) := by
    intro v hv hname
    have howner := h.full_iff (u.lookup_beforeBody package hv) hname
    rw [h.refers.isSimple_iff, ← Bool.not_eq_true, howner, not_and_or, not_not, not_not,
      or_self_left]
  constructor
  · rintro ⟨hm, v, hv, hname⟩
    exact ⟨v, hv, hname, (hsimple v hv hname).1 hm⟩
  · rintro ⟨v, hv, hname, howner⟩
    exact ⟨(hsimple v hv hname).2 howner, v, hv, hname⟩

end FailureUnion

end Kotlin

end ModelForge
