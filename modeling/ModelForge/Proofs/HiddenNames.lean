/-
Classes that the variants of a union hide.

Inside of its body a variant of a union hides every class of the same simple name.  So a class whose
outermost simple name is that of a variant has to be written in full there.  Which classes are not,
`FailureUnion.hides_iff` says of every union; here this is said of the unions of analyzed models.

A variant may be called like a union, and then it hides that union where it is named as a parent.
The main statement is `Context.hidden_of_modelAlone`; `Context.parent_hidden` is a model with such a
variant.
-/
import ModelForge.Proofs.Decoding
import ModelForge.Proofs.FailureVariants

namespace ModelForge

open Kotlin

/-! ### Models -/

/-- Whatever a model is generated for, the first of its files is that of its field failures. -/
theorem Model.files_eq_cons {m : Model} {c : ClassDecl} {mark : TargetMark} (option : String)
    (h : m.FitsMark c mark) :
    ∃ others, m.files option = .ok
      (⟨m.names.package, m.names.base ++ "FieldFailure", .failureUnion m.failureUnion⟩ ::
        others) := by
  cases h with
  | template _ _ hnames htarget =>
    obtain ⟨_, -, hfiles⟩ := files_of_template option hnames htarget
    rw [hfiles, hnames]
    exact ⟨_, rfl⟩
  | validatable _ _ _ htarget => exact ⟨_, files_of_validatable option htarget⟩

/-- **Classes that variants hide.**  The first file of an analyzed model declares the union of its
field failures.  The classes in the body of the union, the parents of the variants and all classes
of their payloads, are written by their simple names or in full.  A variant hides one of them if and
only if it has the outermost simple name of the class, and the class has no package or is the one
that the name belongs to: the union or the smaller one, if it is called so, or else what is called
in full like the variant. -/
theorem Context.hidden_of_modelAlone {ctx : Context} {t : Target} {m : Model}
    (h : ctx.modelAlone t = .ok m) (option : String) :
    ∃ (f : Kotlin.File) (others : List Kotlin.File) (w : FailureUnion ClassUse TypeUse),
      m.files option = .ok (f :: others) ∧ f.name = m.names.base ++ "FieldFailure" ∧
      f.spelled.1 = .failureUnion w ∧ m.failureUnion.Spells w ∧
      (m.failureUnion.mentions w).map (·.type) = m.failureUnion.classes ∧
      ∀ c ∈ m.failureUnion.mentions w, (c.IsSimple ∨ c.use.display = c.type.canonicalName) ∧
        (m.failureUnion.Hides c ↔ ∃ v ∈ m.failureUnion.variants,
          c.type.simpleNames.head? = some v.name ∧
            (c.type.package = "" ∨ c.type.topLevelName = m.failureUnion.ownerOf v.name)) := by
  obtain ⟨others, hfiles⟩ := Model.files_eq_cons option (fitsMark_of_modelAlone h).1
  have hwritten := m.failureUnion.written_mentions m.names.package
  refine ⟨_, others, (m.failureUnion.spell.run (.start m.names.package)).1, hfiles, rfl, rfl,
    m.failureUnion.gives_spell _, ?_, fun c hc => ?_⟩
  · rw [map_eq_of_forall₂ hwritten fun _ _ h => h.1, List.map_id']
  · obtain ⟨_, -, -, hc⟩ := exists_of_mem_forall₂ hwritten c hc
    exact ⟨hc.refers.form, m.failureUnion.hides_iff _ hc⟩

/-! ### A variant that is called like its parent

The ledger has a property that is called like the class of a payload, and the voucher one that is
called like the smaller union. -/

namespace Sample

def ledgerTemplate : ClassDecl :=
  templateOf "LedgerTemplate" "Ledger" [("failure", .named "t.Deep"), ("long", .named "t.Deep")]

def voucherTemplate : ClassDecl :=
  templateOf "VoucherTemplate" "Voucher" [("voucherRequiredFieldFailure", .named "t.Deep")]

def books : Context :=
  ⟨⟨context.index.entries ++
    [ledgerTemplate, voucherTemplate].map fun c => ⟨.ofClass c, "t.json"⟩⟩, {}⟩

def ledger : Target :=
  ⟨ledgerTemplate, .template (.mk "modelsmith.annotation.ModelTemplate"
    [("name", .string "Ledger")])⟩

def voucher : Target :=
  ⟨voucherTemplate, .template (.mk "modelsmith.annotation.ModelTemplate"
    [("name", .string "Voucher")])⟩

/-- The classes in the body of a model's union as they are written. -/
def bodyOf (m : Model) : List Mention :=
  m.failureUnion.mentions (m.failureUnion.spell.run (.start m.names.package)).1

/-- The hidden ones among them, with their full names. -/
def hiddenOf (m : Model) : List (String × String) :=
  ((bodyOf m).filter fun c => m.failureUnion.Hides c).map fun c =>
    (c.type.canonicalName, c.use.display)

/-- No variant's name belongs to a class in the body that is called so. -/
def NoneOwned (m : Model) : Prop :=
  ∀ t ∈ m.failureUnion.classes, ∀ v ∈ m.failureUnion.variants, t.simpleNames.head? = some v.name →
    ¬ (t.package = "" ∨ t.topLevelName = m.failureUnion.ownerOf v.name)

instance : DecidablePred NoneOwned := fun m =>
  inferInstanceAs (Decidable (∀ t ∈ m.failureUnion.classes, _))

end Sample

theorem Context.hidden_of_modelAlone_ledger :
    ∃ m, Sample.books.modelAlone Sample.ledger = .ok m ∧
      m.failureUnion.variants.map (·.name) = ["Failure", "Long"] ∧
      ∃ (f : Kotlin.File) (others : List Kotlin.File) (w : FailureUnion ClassUse TypeUse),
        m.files "arrow.core.Option" = .ok (f :: others) ∧ f.spelled.1 = .failureUnion w ∧
        (m.failureUnion.mentions w).map (·.type) = m.failureUnion.classes ∧
        ∀ c ∈ m.failureUnion.mentions w, ¬ m.failureUnion.Hides c := by
  have hvariants : (Sample.books.modelAlone Sample.ledger).map
      (fun m => (m.failureUnion.variants.map (·.name), decide (Sample.NoneOwned m))) =
      .ok (["Failure", "Long"], true) := by
    decide +kernel
  obtain ⟨m, hm, hvariants⟩ := Json.map_eq_ok_iff.1 hvariants
  obtain ⟨hnames, hnone⟩ := Prod.mk.inj hvariants
  obtain ⟨f, others, w, hfiles, -, hspelled, -, htypes, hbody⟩ :=
    Context.hidden_of_modelAlone hm "arrow.core.Option"
  refine ⟨m, hm, hnames, f, others, w, hfiles, hspelled, htypes, fun c hc hhidden => ?_⟩
  obtain ⟨v, hv, hname, howner⟩ := (hbody c hc).2.1 hhidden
  exact of_decide_eq_true hnone c.type (htypes ▸ List.mem_map_of_mem hc) v hv hname howner

/-- The voucher is accepted.  Its variant belongs to the union that it is called like, and in the
body the name stands for the variant. -/
theorem Context.parent_hidden :
    ∃ m, Sample.books.modelAlone Sample.voucher = .ok m ∧
      m.failureUnion.variants.map (·.name) = ["VoucherRequiredFieldFailure"] ∧
      ∃ (f : Kotlin.File) (others : List Kotlin.File) (w : FailureUnion ClassUse TypeUse),
        m.files "arrow.core.Option" = .ok (f :: others) ∧ f.spelled.1 = .failureUnion w ∧
        ∃ c ∈ m.failureUnion.mentions w, m.failureUnion.Hides c ∧
          c.type.canonicalName = "t.VoucherRequiredFieldFailure" ∧
          c.use.display = "VoucherRequiredFieldFailure" := by
  have hvariants : (Sample.books.modelAlone Sample.voucher).map
      (fun m => (m.failureUnion.variants.map (·.name), Sample.hiddenOf m)) =
      .ok (["VoucherRequiredFieldFailure"],
        [("t.VoucherRequiredFieldFailure", "VoucherRequiredFieldFailure")]) := by
    decide +kernel
  obtain ⟨m, hm, hvariants⟩ := Json.map_eq_ok_iff.1 hvariants
  obtain ⟨hnames, hhidden⟩ := Prod.mk.inj hvariants
  obtain ⟨others, hfiles⟩ :=
    Model.files_eq_cons "arrow.core.Option" (fitsMark_of_modelAlone hm).1
  obtain ⟨c, rest, hc, hforms, -⟩ := List.map_eq_cons_iff.1 hhidden
  have hmem := List.mem_filter.1 (hc ▸ List.mem_cons_self : c ∈ List.filter _ (Sample.bodyOf m))
  exact ⟨m, hm, hnames, _, others, _, hfiles, rfl, c, hmem.1, of_decide_eq_true hmem.2,
    (Prod.mk.inj hforms).1, (Prod.mk.inj hforms).2⟩

end ModelForge
