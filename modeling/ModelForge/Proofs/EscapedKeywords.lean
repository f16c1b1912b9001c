/-
Keywords among the names of generated code.

A name that is a keyword has to be escaped wherever it is written.  The names of properties are; all
others are written as they are.  Whether a file escapes its keywords is then a question of which
names come into it:

* `Kotlin.File.EscapesKeywords` — the keywords among the names of a file are in back quotes;
* `Kotlin.File.mem_words` — what the strokes of a file are put together from is written in it;
* `Model.template_mem_words`, `Model.companion_mem_words` — so the functions of the templates and
  the companion of a validatable class do come into files;
* `Context.templates_of_validatable` — where there is such a companion, there are no templates.

The names of variants and locals are made from those of properties, and are never keywords
(`Property.failureName_not_mem_keywords`).  The main statement is
`Context.escapesKeywords_of_modelAlone`; `Context.keyword_not_escaped` is a template whose function
is called by a keyword.
-/
import ModelForge.Proofs.DerivedNames
import ModelForge.Proofs.HiddenNames
import ModelForge.Proofs.SuppliedNames

namespace ModelForge

open Kotlin

namespace Kotlin

/-! ### Names as they are written -/

/-- The keywords among the names of the file are written in back quotes. -/
def File.EscapesKeywords (f : File) : Prop :=
  ∀ role n, .name role n ∈ f.words → n ∈ keywords →
    (Word.name role n).display = "\x60" ++ n ++ "\x60"

theorem display_property_of_mem_keywords {n : String} (h : n ∈ keywords) :
    (Word.name .property n).display = "\x60" ++ n ++ "\x60" :=
  if_pos (List.contains_iff_mem.2 h)

theorem ne_quoted (n : String) : n ≠ "\x60" ++ n ++ "\x60" := by
  intro h
  have hquote : "\x60".length = 1 := by rfl
  have hlength := congrArg String.length h
  rw [String.length_append, String.length_append, hquote] at hlength
  omega

theorem display_name {role : Role} (h : role ≠ .property) (n : String) :
    (Word.name role n).display = n := by
  cases role with
  | property => exact absurd rfl h
  | _ => rfl

/-- Keywords are escaped if and only if they are names of properties only. -/
theorem File.escapesKeywords_iff (f : File) :
    f.EscapesKeywords ↔ ∀ role n, .name role n ∈ f.words → n ∈ keywords → role = .property := by
  constructor
  · intro h role n hn hkeyword
    by_contra hrole
    have hdisplay := h role n hn hkeyword
    rw [display_name hrole] at hdisplay
    exact ne_quoted n hdisplay
  · intro h role n hn hkeyword
    rw [h role n hn hkeyword]
    exact display_property_of_mem_keywords hkeyword

/-! ### What is put together is written -/

theorem displayAll_ne_empty {p : Piece ClassUse TypeUse} (hne : p.display ≠ "")
    {ps : List (Piece ClassUse TypeUse)} (h : p ∈ ps) : Piece.displayAll ps ≠ "" := by
  intro hempty
  induction ps with
  | nil => cases h
  | cons q ps ih =>
    rw [Piece.displayAll_cons, String.append_eq_empty_iff] at hempty
    rcases List.mem_cons.1 h with rfl | h
    · exact hne hempty.1
    · exact ih h hempty.2

theorem Row.words_subset {r : Row} {p : Piece ClassUse TypeUse} (h : p ∈ r.pieces)
    (hne : p.display ≠ "") : p.words ⊆ r.words := by
  intro w hw
  rw [words, if_neg (displayAll_ne_empty hne h)]
  refine List.mem_cons_of_mem _ (List.mem_append_left _ ?_)
  exact List.mem_flatMap.2 ⟨p, h, hw⟩

theorem Stroke.exists_mem_rows {s : Stroke ClassUse TypeUse} {p : Piece ClassUse TypeUse}
    (h : p ∈ s.pieces) (depth : Nat) : ∃ r ∈ s.rows depth, p ∈ r.pieces := by
  cases s with
  | line ps | opening ps | closing ps => exact ⟨_, List.mem_singleton_self _, h⟩
  | blank | indent => cases h

theorem words_subset_writeAll {p : Piece ClassUse TypeUse} (hne : p.display ≠ "")
    {ss : List (Stroke ClassUse TypeUse)} (h : p ∈ ss.flatMap Stroke.pieces) (depth : Nat) :
    p.words ⊆ (writeAll depth ss).flatMap Row.words := by
  induction ss generalizing depth with
  | nil => cases h
  | cons s ss ih =>
    intro w hw
    rw [writeAll, List.flatMap_append, List.mem_append]
    rw [List.flatMap_cons, List.mem_append] at h
    rcases h with hs | hss
    · obtain ⟨r, hr, hp⟩ := s.exists_mem_rows hs depth
      exact .inl (List.mem_flatMap.2 ⟨r, hr, Row.words_subset hp hne hw⟩)
    · exact .inr (ih hss _ hw)

/-- A name that a file is put together from is written in it. -/
theorem File.mem_words {f : File} {role : Role} {n : String} (hne : role.write n ≠ "")
    (h : .name role n ∈ f.spelled.1.strokes.flatMap Stroke.pieces) : .name role n ∈ f.words := by
  have hsubset := words_subset_writeAll (p := .name role n) hne h 0
  refine List.mem_cons_of_mem _ (List.mem_append_right _ (List.mem_append_right _ ?_))
  exact hsubset (List.mem_singleton_self _)

section Strokes

variable {C T : Type}

theorem subset_listStrokes (head : List (Piece C T)) (entries : List (List (Piece C T)))
    (tail : List (Piece C T)) : head ⊆ (listStrokes head entries tail).flatMap Stroke.pieces := by
  intro p hp
  unfold listStrokes
  split <;> simp [hp]

/-- The first line of a factory has its name, with the companion that it extends in front. -/
theorem Factory.head_subset_strokes (f : Factory C T) :
    ownerPieces f.receiver ++ [.name .function f.name] ⊆ f.strokes.flatMap Stroke.pieces := by
  intro p hp
  rw [strokes, List.flatMap_append, List.mem_append]
  exact .inl (subset_listStrokes _ _ _ (List.mem_cons_of_mem _ hp))

theorem subset_factoriesStrokes {f : Factory C T} {fs : List (Factory C T)} (h : f ∈ fs) :
    f.strokes ⊆ factoriesStrokes fs := by
  induction fs with
  | nil => cases h
  | cons g fs ih =>
    intro s hs
    cases fs with
    | nil =>
      obtain rfl := List.mem_singleton.1 h
      exact hs
    | cons k fs =>
      show s ∈ g.strokes ++ .blank :: factoriesStrokes (k :: fs)
      rw [List.mem_append, List.mem_cons]
      rcases List.mem_cons.1 h with rfl | h
      · exact .inl hs
      · exact .inr (.inr (ih h hs))

theorem DataClass.name_mem_strokes {d : DataClass C T} {f : Factory C T} (h : f ∈ d.factories) :
    .name .function f.name ∈ d.strokes.flatMap Stroke.pieces := by
  obtain ⟨s, hs, hname⟩ := List.mem_flatMap.1
    (f.head_subset_strokes (List.mem_append_right _ (List.mem_singleton_self _)))
  refine List.mem_flatMap.2 ⟨s, ?_, hname⟩
  exact List.mem_append_right _ (List.mem_cons_of_mem _
    (List.mem_append_left _ (subset_factoriesStrokes h hs)))

end Strokes

/-! ### Companions -/

open Naming

theorem Receiver.gives_spell (r : Receiver TypeName) :
    Gives (fun w => w.companion = r.companion) r.spell :=
  gives_after fun _ => gives_pure rfl

/-- A factory extends the same companion when it is spelled. -/
theorem Factory.gives_receiver (f : Factory TypeName TypeName) :
    Gives (fun w => Option.Rel (fun r s => s.companion = r.companion) f.receiver w.receiver)
      f.spell := by
  refine (gives_optional Receiver.gives_spell f.receiver).bind fun receiver hreceiver => ?_
  refine gives_after fun _ => gives_after fun _ => gives_after fun _ => gives_after fun _ => ?_
  refine gives_after fun _ => gives_after fun _ => gives_after fun _ => ?_
  exact gives_pure hreceiver

theorem File.spelled_factory {f : File} {g : Factory TypeName TypeName}
    (h : f.content = .factory g) :
    ∃ w, f.spelled.1 = .factory w ∧
      Option.Rel (fun r s => s.companion = r.companion) g.receiver w.receiver := by
  refine ⟨(g.spell.run (.start f.package)).1, ?_, g.gives_receiver _⟩
  unfold File.spelled
  rw [h]
  rfl

end Kotlin

/-! ### The names of a model -/

theorem Property.failureName_not_mem_keywords (p : Property) : p.failureName ∉ keywords :=
  capitalized_not_mem_keywords p.name

theorem Property.resultName_not_mem_keywords (p : Property) : p.resultName ∉ keywords :=
  ModelForge.resultName_not_mem_keywords p.name

namespace Model

variable {m : Model} {f : Kotlin.File}

/-- The function of a template is in the class that receives it. -/
theorem template_mem_words {mode : Generation.Mode} (hf : f.content = .dataClass (m.dataClass mode))
    {t : ValidationTemplate} (ht : t ∈ m.templatesIn mode) (hne : t.function ≠ "") :
    .name .function t.function ∈ f.words := by
  obtain ⟨d, hd, hspells⟩ := File.spelled_dataClass hf
  have hfactory : Generation.factory (m.factoryTarget mode) t.function
      (t.apply (m.propertiesIn mode)) ∈ (m.dataClass mode).factories :=
    List.mem_cons_of_mem _ (List.mem_map_of_mem ht)
  obtain ⟨w, hw, hspelled⟩ := exists_of_mem_forall₂ hspells.flip _ hfactory
  have hname : w.name = t.function := hspelled.name
  refine File.mem_words hne ?_
  rw [hd, ← hname]
  exact DataClass.name_mem_strokes hw

/-- The companion of a validatable class is in the file with its extension. -/
theorem companion_mem_words {companion : String}
    (hf : f.content = .factory (m.companionOf companion)) (hne : companion ≠ "") :
    .name .companion companion ∈ f.words := by
  obtain ⟨w, hw, hreceiver⟩ := File.spelled_factory hf
  refine File.mem_words hne ?_
  rw [hw]
  refine w.head_subset_strokes (List.mem_append_left _ ?_)
  obtain ⟨r, hr, hcompanion⟩ : ∃ r, w.receiver = some r ∧ r.companion = companion := by
    generalize w.receiver = receiver at hreceiver
    cases hreceiver with
    | some h => exact ⟨_, rfl, h⟩
  rw [hr, ← hcompanion]
  simp [Factory.ownerPieces, Receiver.pieces]

theorem exists_mode_of_mem_templates {t : ValidationTemplate} (h : t ∈ m.templates) :
    ∃ mode, t ∈ m.templatesIn mode := by
  cases hscope : t.scope with
  | both | model =>
    refine ⟨.model, List.mem_filter.2 ⟨h, ?_⟩⟩
    rw [hscope]
    rfl
  | params =>
    refine ⟨.params, List.mem_filter.2 ⟨h, ?_⟩⟩
    rw [hscope]
    rfl

/-- Where the functions of templates, the companion and the parts of dotted names are no keywords,
keywords are escaped. -/
theorem escapesKeywords (hf : WordsIn m.Supplies f.words)
    (htemplates : ∀ t ∈ m.templates, t.function ∉ keywords)
    (hcompanions : ∀ companion ∈ m.target.companions, companion ∉ keywords)
    (hsegments : ∀ s, .name .segment s ∈ f.words → s ∉ keywords) : f.EscapesKeywords := by
  rw [File.escapesKeywords_iff]
  intro role n hn hkeyword
  cases hf role n hn with
  | property => rfl
  | result => exact absurd hkeyword (Property.resultName_not_mem_keywords _)
  | element | factory => exact absurd hkeyword (by decide)
  | variant => exact absurd hkeyword (Property.failureName_not_mem_keywords _)
  | template ht => exact absurd hkeyword (htemplates _ ht)
  | companion htarget =>
    rw [htarget] at hcompanions
    exact absurd hkeyword (hcompanions _ (List.mem_singleton_self _))
  | package | ofClass => exact absurd hkeyword (hsegments n hn)

end Model

namespace Context

open Analysis

variable {ctx : Context} {t : Target} {m : Model}

/-- Only interfaces have validation templates. -/
theorem templates_of_validatable (h : ctx.modelAlone t = .ok m) {companion : String}
    (htarget : m.target = .validatable companion) : m.templates = [] := by
  have hm := modelOf_of_modelAlone h
  obtain ⟨c, mark⟩ := t
  cases mark with
  | template use =>
    obtain ⟨hfits, -⟩ := analyzeTemplate_eq_ok hm
    cases hfits with
    | template _ _ _ htemplate => exact absurd (htarget.symm.trans htemplate) nofun
  | validatable =>
    have hanalyzed : (ctx.analyzeValidatable c).result {} = .ok m := hm
    unfold analyzeValidatable at hanalyzed
    obtain ⟨-, hanalyzed⟩ := result_guarded hanalyzed
    cases hcompanion : c.companion with
    | none =>
      rw [hcompanion] at hanalyzed
      cases hanalyzed
    | some _ =>
      rw [hcompanion] at hanalyzed
      obtain ⟨_, -, hanalyzed⟩ := result_bind_eq_ok_iff.1 hanalyzed
      obtain rfl := Except.ok.inj hanalyzed
      rfl

/-- Files that escape keywords have no template whose function is called by one. -/
theorem template_not_mem_keywords (h : ctx.modelAlone t = .ok m) {option : String}
    {files : List Kotlin.File} (hfiles : m.files option = .ok files)
    (hall : ∀ f ∈ files, f.EscapesKeywords) :
    ∀ template ∈ m.templates, template.function ∉ keywords := by
  intro template ht hkeyword
  have hne : template.function ≠ "" := by
    intro hempty
    rw [hempty] at hkeyword
    exact absurd hkeyword (by decide)
  obtain ⟨mode, hmode⟩ := Model.exists_mode_of_mem_templates ht
  obtain ⟨f, hf, hcontent⟩ : ∃ f ∈ files, f.content = .dataClass (m.dataClass mode) := by
    have hfits := (fitsMark_of_modelAlone h).1
    generalize t.mark = mark at hfits
    -- the functions of templates are those of classes, and only templates have classes generated
    cases hfits with
    | template _ _ hnames htarget =>
      obtain ⟨_, -, hwritten⟩ := m.files_of_template option hnames htarget
      obtain rfl := Except.ok.inj (hfiles.symm.trans hwritten)
      cases mode with
      | model => exact ⟨_, .tail _ (.head _), rfl⟩
      | params => exact ⟨_, .tail _ (.tail _ (.head _)), rfl⟩
    | validatable _ _ _ htarget =>
      rw [templates_of_validatable h htarget] at ht
      cases ht
  have hmem := Model.template_mem_words hcontent hmode hne
  exact absurd (f.escapesKeywords_iff.1 (hall f hf) _ _ hmem hkeyword) nofun

/-- Files that escape keywords extend no companion that is called by one. -/
theorem companion_not_mem_keywords {option : String} {files : List Kotlin.File}
    (hfiles : m.files option = .ok files) (hall : ∀ f ∈ files, f.EscapesKeywords) :
    ∀ companion ∈ m.target.companions, companion ∉ keywords := by
  intro companion hcompanion hkeyword
  have hne : companion ≠ "" := by
    rintro rfl
    exact absurd hkeyword (by decide)
  cases htarget : m.target with
  | template =>
    rw [htarget] at hcompanion
    cases hcompanion
  | validatable name =>
    rw [htarget] at hcompanion
    obtain rfl := List.mem_singleton.1 hcompanion
    obtain ⟨f, hf, hcontent⟩ : ∃ f ∈ files, f.content = .factory (m.companionOf companion) := by
      obtain rfl := Except.ok.inj (hfiles.symm.trans (m.files_of_validatable option htarget))
      exact ⟨_, .tail _ (.head _), rfl⟩
    have hmem := Model.companion_mem_words hcontent hne
    exact absurd (f.escapesKeywords_iff.1 (hall f hf) _ _ hmem hkeyword) nofun

end Context

/-- **Which keywords are escaped.**  The files of an analyzed model are written with the names that
the model supplies, each as what it is the name of.  Those of properties are in back quotes whenever
they are keywords.  All keywords in all files are if and only if the functions of the templates, the
companion of the class and the parts of the packages and classes that are written are none. -/
theorem Context.escapesKeywords_of_modelAlone {ctx : Context} {t : Target} {m : Model}
    (h : ctx.modelAlone t = .ok m) (option : String) :
    ∃ files, m.files option = .ok files ∧
      (∀ f ∈ files, f.text = displayWords f.words ∧ WordsIn m.Supplies f.words ∧
        ∀ n, .name .property n ∈ f.words → n ∈ keywords →
          (Word.name .property n).display = "\x60" ++ n ++ "\x60") ∧
      ((∀ f ∈ files, f.EscapesKeywords) ↔
        (∀ template ∈ m.templates, template.function ∉ keywords) ∧
        (∀ companion ∈ m.target.companions, companion ∉ keywords) ∧
        ∀ f ∈ files, ∀ s, .name .segment s ∈ f.words → s ∉ keywords) := by
  obtain ⟨others, hfiles⟩ := Model.files_eq_cons option (fitsMark_of_modelAlone h).1
  refine ⟨_, hfiles, fun f hf => ?_, fun hall => ?_, fun ⟨htemplates, hcompanions, hsegments⟩ => ?_⟩
  · exact ⟨f.displayWords_words.symm, Model.supplies_of_mem_words hfiles hf,
      fun n _ => display_property_of_mem_keywords⟩
  · refine ⟨template_not_mem_keywords h hfiles hall, companion_not_mem_keywords hfiles hall, ?_⟩
    intro f hf s hs hkeyword
    exact absurd (f.escapesKeywords_iff.1 (hall f hf) _ s hs hkeyword) nofun
  · intro f hf
    exact Model.escapesKeywords (Model.supplies_of_mem_words hfiles hf) htemplates hcompanions
      (hsegments f hf)

/-! ### Names that are keywords

The gate has a property that is called `in`.  The rack has a template whose function is called
`object`. -/

namespace Sample

def gateTemplate : ClassDecl :=
  templateOf "GateTemplate" "Gate" [("in", .named "t.Deep")]

def rackTemplate : ClassDecl :=
  { templateOf "RackTemplate" "Rack" [("depth", .named "t.Deep")] with
    nested :=
      [{ templateOf "Trusted" "" [("depth", .named "t.Deep")] with
        annotations := [.mk "modelsmith.annotation.ValidationTemplate"
          [("name", .string "object")]]
        isPrivate := true }] }

def racks : Context :=
  ⟨⟨context.index.entries ++ [gateTemplate, rackTemplate].map fun c => ⟨.ofClass c, "t.json"⟩⟩, {}⟩

def gate : Target :=
  ⟨gateTemplate, .template (.mk "modelsmith.annotation.ModelTemplate"
    [("name", .string "Gate")])⟩

def rack : Target :=
  ⟨rackTemplate, .template (.mk "modelsmith.annotation.ModelTemplate"
    [("name", .string "Rack")])⟩

end Sample

/-- The gate's property is a keyword, and all keywords in the gate's files are escaped. -/
theorem Context.escapesKeywords_of_modelAlone_gate :
    ∃ m, Sample.racks.modelAlone Sample.gate = .ok m ∧
      ∃ files, m.files "arrow.core.Option" = .ok files ∧
        (∃ f ∈ files, .name .property "in" ∈ f.words) ∧
        (Word.name .property "in").display = "\x60in\x60" ∧ ∀ f ∈ files, f.EscapesKeywords := by
  have hnone : (Sample.racks.modelAlone Sample.gate).map (fun m =>
      decide ((∃ f ∈ (m.files "arrow.core.Option").toOption.getD [],
          .name .property "in" ∈ (writeAll 0 f.spelled.1.strokes).flatMap Row.words) ∧
        (∀ template ∈ m.templates, template.function ∉ keywords) ∧
        ∀ n ∈ m.names.package :: m.typeNames, ∀ s ∈ dotted n, s ∉ keywords)) = .ok true := by
    decide +kernel
  obtain ⟨m, hm, hnone⟩ := Json.map_eq_ok_iff.1 hnone
  obtain ⟨⟨f, hf, hbody⟩, htemplates, hsegments⟩ := of_decide_eq_true hnone
  have hcompanions : ∀ companion ∈ m.target.companions, companion ∉ keywords := by
    obtain ⟨hfits, -⟩ := fitsMark_of_modelAlone hm
    cases hfits with
    | template _ _ _ htarget =>
      rw [htarget]
      exact nofun
  obtain ⟨files, hfiles, hsupplied, hiff⟩ :=
    Context.escapesKeywords_of_modelAlone hm "arrow.core.Option"
  have hall : ∀ f ∈ files, f.EscapesKeywords := by
    refine hiff.2 ⟨htemplates, hcompanions, fun f hf s hs => ?_⟩
    cases (hsupplied f hf).2.1 .segment s hs with
    | package hs => exact hsegments _ List.mem_cons_self s hs
    | ofClass hname hs => exact hsegments _ (List.mem_cons_of_mem _ hname) s hs
  rw [hfiles] at hf
  have hword : .name .property "in" ∈ f.words :=
    List.mem_cons_of_mem _ (List.mem_append_right _ (List.mem_append_right _ hbody))
  exact ⟨m, hm, files, hfiles, ⟨f, hf, hword⟩, (hsupplied f hf).2.2 "in" hword (by decide), hall⟩

/-- A file with the factory of the rack's template does not escape its name. -/
theorem Context.keyword_not_escaped :
    ∃ m files f, Sample.racks.modelAlone Sample.rack = .ok m ∧
      m.files "arrow.core.Option" = .ok files ∧ f ∈ files ∧ ¬ f.EscapesKeywords := by
  have hfunctions : (Sample.racks.modelAlone Sample.rack).map
      (fun m => m.templates.map (·.function)) = .ok ["object"] := by
    decide +kernel
  obtain ⟨m, hm, hfunctions⟩ := Json.map_eq_ok_iff.1 hfunctions
  obtain ⟨template, htemplates, hname⟩ := List.map_eq_singleton_iff.1 hfunctions
  obtain ⟨others, hfiles⟩ := Model.files_eq_cons "arrow.core.Option" (fitsMark_of_modelAlone hm).1
  by_contra hescapes
  have hnone := template_not_mem_keywords hm hfiles fun f hf => by
    by_contra hnot
    exact hescapes ⟨m, _, f, hm, hfiles, hf, hnot⟩
  have hkeyword : template.function ∈ keywords := by
    rw [hname]
    decide
  exact hnone template (by rw [htemplates]; exact List.mem_singleton_self _) hkeyword

end ModelForge
