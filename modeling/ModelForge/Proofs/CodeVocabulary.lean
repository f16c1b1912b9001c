/-
Code that keeps to a vocabulary.

A vocabulary says which names code may be written with, and which classes and types may be in it:

* `Vocabulary` — `spoken` is the one before classes and types are spelled, `written` the one after
  it.  In both a class is allowed if the parts of its dotted name are;
* `WordsIn`, `AllIn`, `StrokesIn` — words, pieces and strokes whose names, classes and types are
  allowed;
* `Factory.In`, `DataClass.In` and so on — declarations that keep to a vocabulary.

The strokes of what keeps to a vocabulary do so, too: the main statement is `Content.In.strokes`.
-/
import ModelForge.Proofs.CodeWriting
import ModelForge.Proofs.ImportNames

namespace ModelForge

open Kotlin

/-- The dotted names of the classes in a type. -/
def TypeName.classNames (t : TypeName) : List String :=
  t.classes.map canonicalName

/-! ### Vocabularies -/

namespace Kotlin

/-- The names, classes and types that code may be made of. -/
structure Vocabulary (C T : Type) where
  name : Role → String → Prop
  reference : C → Prop
  type : T → Prop

/-- The parts of a dotted name are allowed. -/
def SegmentsIn (Q : Role → String → Prop) (name : String) : Prop :=
  ∀ s ∈ dotted name, Q .segment s

section Words

variable {Q : Role → String → Prop}

/-- The names of the words are allowed. -/
def WordsIn (Q : Role → String → Prop) (ws : List Word) : Prop :=
  ∀ role n, .name role n ∈ ws → Q role n

@[simp] theorem wordsIn_nil : WordsIn Q [] ↔ True := by
  simp [WordsIn]

@[simp] theorem wordsIn_append (ws vs : List Word) :
    WordsIn Q (ws ++ vs) ↔ WordsIn Q ws ∧ WordsIn Q vs := by
  simp only [WordsIn, List.mem_append]
  exact ⟨fun h => ⟨fun role n hn => h role n (.inl hn), fun role n hn => h role n (.inr hn)⟩,
    fun h role n hn => hn.elim (h.1 role n) (h.2 role n)⟩

@[simp] theorem wordsIn_code (text : String) (ws : List Word) :
    WordsIn Q (.code text :: ws) ↔ WordsIn Q ws := by
  simp [WordsIn]

theorem SegmentsIn.words {name : String} (h : SegmentsIn Q name) :
    WordsIn Q (dottedWords name) := by
  intro role n hn
  obtain ⟨rfl, hmem⟩ := mem_dottedWords hn
  exact h n hmem

end Words

/-- The vocabulary of code whose classes and types have not been spelled. -/
def spoken (Q : Role → String → Prop) : Vocabulary TypeName TypeName where
  name := Q
  reference t := SegmentsIn Q t.canonicalName
  type t := ∀ n ∈ t.classNames, SegmentsIn Q n

/-- The vocabulary of code as it is written. -/
def written (Q : Role → String → Prop) : Vocabulary ClassUse TypeUse where
  name := Q
  reference c := SegmentsIn Q c.display
  type t := WordsIn Q t.words

section Vocabularies

variable (Q : Role → String → Prop)

@[simp] theorem name_spoken (role : Role) (n : String) : (spoken Q).name role n ↔ Q role n :=
  Iff.rfl

@[simp] theorem reference_spoken (t : TypeName) :
    (spoken Q).reference t ↔ SegmentsIn Q t.canonicalName := Iff.rfl

@[simp] theorem type_spoken (t : TypeName) :
    (spoken Q).type t ↔ ∀ n ∈ t.classNames, SegmentsIn Q n := Iff.rfl

@[simp] theorem name_written (role : Role) (n : String) : (written Q).name role n ↔ Q role n :=
  Iff.rfl

@[simp] theorem reference_written (c : ClassUse) :
    (written Q).reference c ↔ SegmentsIn Q c.display := Iff.rfl

@[simp] theorem type_written (t : TypeUse) : (written Q).type t ↔ WordsIn Q t.words := Iff.rfl

end Vocabularies

section In

variable {C T : Type} {v : Vocabulary C T}

/-- The piece keeps to the vocabulary. -/
def Piece.In (v : Vocabulary C T) : Piece C T → Prop
  | code _ _ _ => True
  | name role n => v.name role n
  | reference c => v.reference c
  | type t => v.type t

/-- All pieces keep to the vocabulary. -/
def AllIn (v : Vocabulary C T) (ps : List (Piece C T)) : Prop :=
  ∀ p ∈ ps, p.In v

/-- The pieces of all strokes keep to the vocabulary. -/
def StrokesIn (v : Vocabulary C T) (ss : List (Stroke C T)) : Prop :=
  ∀ s ∈ ss, AllIn v s.pieces

@[simp] theorem in_code (text : String) (marks : List Mark) (h : marksOf text = marks) :
    (Piece.code text marks h : Piece C T).In v ↔ True := Iff.rfl

@[simp] theorem in_name (role : Role) (n : String) :
    (Piece.name role n : Piece C T).In v ↔ v.name role n := Iff.rfl

@[simp] theorem in_reference (c : C) : (Piece.reference c : Piece C T).In v ↔ v.reference c :=
  Iff.rfl

@[simp] theorem in_type (t : T) : (Piece.type t : Piece C T).In v ↔ v.type t := Iff.rfl

@[simp] theorem allIn_nil : AllIn v [] ↔ True := by
  simp [AllIn]

@[simp] theorem allIn_cons (p : Piece C T) (ps : List (Piece C T)) :
    AllIn v (p :: ps) ↔ p.In v ∧ AllIn v ps := List.forall_mem_cons

@[simp] theorem allIn_append (ps qs : List (Piece C T)) :
    AllIn v (ps ++ qs) ↔ AllIn v ps ∧ AllIn v qs := List.forall_mem_append

@[simp] theorem allIn_blockPieces (ps : List (Piece C T)) :
    AllIn v (blockPieces ps) ↔ AllIn v ps := by
  simp [blockPieces]

@[simp] theorem in_dotPiece (safe : Bool) : (dotPiece safe : Piece C T).In v ↔ True := by
  cases safe <;> simp [dotPiece]

@[simp] theorem strokesIn_nil : StrokesIn v [] ↔ True := by
  simp [StrokesIn]

@[simp] theorem strokesIn_cons (s : Stroke C T) (ss : List (Stroke C T)) :
    StrokesIn v (s :: ss) ↔ AllIn v s.pieces ∧ StrokesIn v ss := List.forall_mem_cons

@[simp] theorem strokesIn_append (ss ts : List (Stroke C T)) :
    StrokesIn v (ss ++ ts) ↔ StrokesIn v ss ∧ StrokesIn v ts := List.forall_mem_append

@[simp] theorem pieces_line (ps : List (Piece C T)) : (Stroke.line ps).pieces = ps := rfl

@[simp] theorem pieces_opening (ps : List (Piece C T)) : (Stroke.opening ps).pieces = ps := rfl

@[simp] theorem pieces_closing (ps : List (Piece C T)) : (Stroke.closing ps).pieces = ps := rfl

@[simp] theorem pieces_blank : (Stroke.blank : Stroke C T).pieces = [] := rfl

@[simp] theorem pieces_indent : (Stroke.indent : Stroke C T).pieces = [] := rfl

@[simp] theorem allIn_closeStroke : AllIn v (closeStroke : Stroke C T).pieces ↔ True := by
  simp [closeStroke]

theorem strokesIn_lines {α : Type} (f : α → List (Piece C T)) (as : List α) :
    StrokesIn v (as.map fun a => .line (f a)) ↔ ∀ a ∈ as, AllIn v (f a) := by
  simp [StrokesIn]

theorem strokesIn_entryStrokes (entries : List (List (Piece C T))) :
    StrokesIn v (entryStrokes entries) ↔ ∀ entry ∈ entries, AllIn v entry := by
  induction entries with
  | nil => simp [entryStrokes]
  | cons entry entries ih =>
    cases entries with
    | nil => simp [entryStrokes]
    | cons next entries => simp [entryStrokes, ih]

theorem strokesIn_listStrokes (head : List (Piece C T)) (entries : List (List (Piece C T)))
    (tail : List (Piece C T)) :
    StrokesIn v (listStrokes head entries tail) ↔
      AllIn v head ∧ (∀ entry ∈ entries, AllIn v entry) ∧ AllIn v tail := by
  unfold listStrokes
  cases entries with
  | nil => simp
  | cons entry entries => simp [strokesIn_entryStrokes]

/-- The case keeps to the vocabulary. -/
structure FailureCase.In (v : Vocabulary C T) (c : FailureCase C) : Prop where
  result : AllIn v c.condition.result.pieces
  variant : v.name .variant c.variant
  value : AllIn v c.value.pieces

/-- The failure branch keeps to the vocabulary. -/
structure FailureBranch.In (v : Vocabulary C T) (b : FailureBranch C T) : Prop where
  conditions : ∀ c ∈ b.conditions, AllIn v c.result.pieces
  variants : v.reference b.variants
  union : v.type b.union
  cases : ∀ c ∈ b.cases, c.In v

/-- The factory keeps to the vocabulary. -/
structure Factory.In (v : Vocabulary C T) (f : Factory C T) : Prop where
  receiver : ∀ r ∈ f.receiver, AllIn v r.pieces
  name : v.name .function f.name
  parameters : ∀ p ∈ f.parameters, AllIn v p.pieces
  result : v.type f.result
  either : v.reference f.either
  locals : ∀ l ∈ f.locals, AllIn v l.pieces
  constructed : v.reference f.constructed
  arguments : ∀ a ∈ f.arguments, AllIn v a.pieces
  failure : ∀ b ∈ f.failure, b.In v

/-- The union keeps to the vocabulary. -/
structure FailureUnion.In (v : Vocabulary C T) (u : FailureUnion C T) : Prop where
  name : v.reference u.name
  variants : ∀ w ∈ u.variants, AllIn v w.pieces
  required : ∀ c ∈ u.required, v.reference c

/-- The class keeps to the vocabulary. -/
structure DataClass.In (v : Vocabulary C T) (d : DataClass C T) : Prop where
  name : v.reference d.name
  fields : ∀ p ∈ d.fields, AllIn v p.pieces
  factories : ∀ f ∈ d.factories, f.In v

/-- The step keeps to the vocabulary. -/
structure BuildStep.In (v : Vocabulary C T) (s : BuildStep C) : Prop where
  name : v.name .property s.name
  source : AllIn v s.source.pieces

/-- What a builder's function returns keeps to the vocabulary. -/
def BuildBody.In (v : Vocabulary C T) : BuildBody C → Prop
  | present wrapper => v.reference wrapper
  | chain steps arguments => (∀ s ∈ steps, s.In v) ∧ ∀ a ∈ arguments, AllIn v a.pieces

/-- The builder keeps to the vocabulary. -/
structure Builder.In (v : Vocabulary C T) (b : Builder C T) : Prop where
  name : v.reference b.name
  staged : ∀ p ∈ b.staged, AllIn v p.pieces
  params : v.reference b.params
  result : v.type b.result
  body : b.body.In v
  absent : ∀ c ∈ b.absent, v.reference c

/-- The extension keeps to the vocabulary. -/
structure OnlyExtension.In (v : Vocabulary C T) (f : OnlyExtension C T) : Prop where
  receiver : AllIn v f.receiver.pieces
  absent : v.reference f.absent
  parameters : ∀ p ∈ f.parameters, v.name .property p.name ∧ v.type p.type

/-- What a file declares keeps to the vocabulary. -/
def Content.In (v : Vocabulary C T) : Content C T → Prop
  | failureUnion u => u.In v
  | dataClass d => d.In v
  | builder b => b.In v
  | factory f => f.In v
  | only f => f.In v

/-! ### Strokes -/

theorem allIn_conditionPieces {either : C} (heither : v.reference either) {c : Condition C}
    (h : AllIn v c.result.pieces) : AllIn v (c.pieces either) := by
  unfold Condition.pieces
  cases c.side <;> simp [Side.piece, h, heither]

theorem allIn_conditionsPieces {either : C} (heither : v.reference either)
    (cs : List (Condition C)) (h : ∀ c ∈ cs, AllIn v c.result.pieces) :
    AllIn v (conditionsPieces either cs) := by
  induction cs with
  | nil => simp [conditionsPieces]
  | cons c cs ih =>
    obtain ⟨hc, hcs⟩ := List.forall_mem_cons.1 h
    have hcondition := allIn_conditionPieces heither hc
    cases cs with
    | nil => exact hcondition
    | cons d cs =>
      have hrest := ih hcs
      simp [conditionsPieces, hcondition, hrest]

theorem Factory.In.successStrokes {f : Factory C T} (h : f.In v) {head : List (Piece C T)}
    (hhead : AllIn v head) : StrokesIn v (f.successStrokes head) := by
  have harguments := h.arguments
  simpa [Factory.successStrokes, strokesIn_listStrokes, hhead, h.either, h.constructed]
    using harguments

theorem Factory.In.outcomeStrokes {f : Factory C T} (h : f.In v) :
    StrokesIn v f.outcomeStrokes := by
  unfold Factory.outcomeStrokes
  cases hfailure : f.failure with
  | none => exact h.successStrokes (by simp)
  | some b =>
    have hb := h.failure b hfailure
    have hconditions := allIn_conditionsPieces h.either b.conditions hb.conditions
    have hsuccess : StrokesIn v (f.successStrokes []) := h.successStrokes (by simp)
    have hcases : ∀ c ∈ b.cases, AllIn v (c.pieces f.either b.variants) := by
      intro c hc
      have hin := hb.cases c hc
      have hcondition := allIn_conditionPieces h.either hin.result
      simp [FailureCase.pieces, hcondition, hin.variant, hin.value, hb.variants]
    simpa [hconditions, hsuccess, strokesIn_lines, h.either, hb.union] using hcases

theorem Factory.In.strokes {f : Factory C T} (h : f.In v) : StrokesIn v f.strokes := by
  have howner : AllIn v (Factory.ownerPieces f.receiver) := by
    cases hreceiver : f.receiver with
    | none => simp [Factory.ownerPieces]
    | some r => exact h.receiver r hreceiver
  have hentries := And.intro h.parameters h.locals
  simpa [Factory.strokes, strokesIn_listStrokes, strokesIn_lines, howner, h.name, h.result,
    h.outcomeStrokes] using hentries

theorem strokesIn_classHeadStrokes {name : C} (hname : v.reference name)
    {fields : List (List (Piece C T))} (hfields : ∀ field ∈ fields, AllIn v field) :
    StrokesIn v (classHeadStrokes name fields) := by
  unfold classHeadStrokes
  split
  · simp [hname]
  · simpa [strokesIn_listStrokes, hname] using hfields

theorem FailureUnion.In.strokes {u : FailureUnion C T} (h : u.In v) : StrokesIn v u.strokes := by
  have hvariants := h.variants
  have hrequired := h.required
  unfold FailureUnion.strokes
  rw [strokesIn_append]
  refine ⟨?_, ?_⟩
  · split
    · simp [h.name]
    · simpa [strokesIn_lines, h.name] using hvariants
  · split
    · rename_i required heq
      simp [hrequired required heq, h.name]
    · simp

theorem strokesIn_factoriesStrokes {fs : List (Factory C T)} (h : ∀ f ∈ fs, f.In v) :
    StrokesIn v (factoriesStrokes fs) := by
  induction fs with
  | nil => simp [factoriesStrokes]
  | cons f fs ih =>
    obtain ⟨hf, hfs⟩ := List.forall_mem_cons.1 h
    cases fs with
    | nil => exact hf.strokes
    | cons g fs => simp [factoriesStrokes, hf.strokes, ih hfs]

/-- A field keeps to the vocabulary if the parameter does. -/
theorem forall_fieldPieces {ps : List (Parameter T)} (h : ∀ p ∈ ps, AllIn v p.pieces) :
    ∀ field ∈ ps.map Parameter.fieldPieces, AllIn v field := by
  intro field hfield
  obtain ⟨p, hp, rfl⟩ := List.mem_map.1 hfield
  simp [Parameter.fieldPieces, h p hp]

theorem DataClass.In.strokes {d : DataClass C T} (h : d.In v) : StrokesIn v d.strokes := by
  have hhead := strokesIn_classHeadStrokes h.name (forall_fieldPieces h.fields)
  have hfactories := strokesIn_factoriesStrokes h.factories
  simp [DataClass.strokes, companionStroke, hhead, hfactories]

theorem strokesIn_stepStrokes {params : C} (hparams : v.reference params)
    {arguments : List (List (Piece C T))} (harguments : ∀ a ∈ arguments, AllIn v a)
    {steps : List (BuildStep C)} (h : ∀ s ∈ steps, s.In v) {head : List (Piece C T)}
    (hhead : AllIn v head) : StrokesIn v (stepStrokes params arguments head steps) := by
  -- only the first step comes after the head, the others are inside of its block
  induction steps generalizing head with
  | nil =>
    simpa [stepStrokes, strokesIn_listStrokes, hhead, hparams] using harguments
  | cons s steps ih =>
    obtain ⟨hs, hsteps⟩ := List.forall_mem_cons.1 h
    have hrest := @ih hsteps [] (by simp)
    cases hcombinator : s.combinator <;>
      simp [stepStrokes, Combinator.piece, hcombinator, hhead, hs.name, hs.source, hrest]

theorem BuildBody.In.strokes {params : C} (hparams : v.reference params) {body : BuildBody C}
    (h : body.In v) : StrokesIn v (body.strokes params) := by
  cases body with
  | present wrapper =>
    have hwrapper : v.reference wrapper := h
    simp [BuildBody.strokes, hwrapper, hparams]
  | chain steps arguments =>
    exact strokesIn_stepStrokes hparams (List.forall_mem_map.2 h.2) h.1 (by simp)

theorem Builder.In.strokes {b : Builder C T} (h : b.In v) : StrokesIn v b.strokes := by
  have hhead := strokesIn_classHeadStrokes h.name (forall_fieldPieces h.staged)
  have hbody := h.body.strokes h.params
  have hdefault : AllIn v (defaultPieces b.absent) := by
    cases habsent : b.absent with
    | none => simp [defaultPieces]
    | some c => simp [defaultPieces, h.absent c habsent]
  have hpassedOn : ∀ p ∈ b.staged, AllIn v (passedOnPieces p.name) := by
    intro p hp
    have hpieces := h.staged p hp
    simp only [Parameter.pieces, allIn_cons, in_name] at hpieces
    simp [passedOnPieces, hpieces.1]
  have hentries := And.intro h.staged hpassedOn
  simpa [Builder.strokes, companionStroke, strokesIn_listStrokes, hhead, hbody, hdefault, h.name,
    h.result] using hentries

theorem OnlyExtension.In.strokes {f : OnlyExtension C T} (h : f.In v) :
    StrokesIn v f.strokes := by
  have howner : v.reference f.receiver.owner := by
    have hreceiver := h.receiver
    simp only [Receiver.pieces, allIn_cons, in_reference] at hreceiver
    exact hreceiver.1
  have hparameters : ∀ p ∈ f.parameters, AllIn v (p.pieces f.absent) := by
    intro p hp
    obtain ⟨hname, htype⟩ := h.parameters p hp
    unfold OnlyParameter.pieces
    split
    · simp [hname, htype, h.absent]
    · simp [hname, htype]
  have hpassedOn : ∀ p ∈ f.parameters, AllIn v (passedOnPieces p.name) := by
    intro p hp
    simp [passedOnPieces, (h.parameters p hp).1]
  have hentries := And.intro hparameters hpassedOn
  simpa [OnlyExtension.strokes, strokesIn_listStrokes, h.receiver, howner] using hentries

/-- The strokes of what keeps to a vocabulary do so, too. -/
theorem Content.In.strokes {c : Content C T} (h : c.In v) : StrokesIn v c.strokes := by
  cases c with
  | failureUnion u => exact FailureUnion.In.strokes h
  | dataClass d => exact DataClass.In.strokes h
  | builder b => exact Builder.In.strokes h
  | factory f => exact Factory.In.strokes h
  | only f => exact OnlyExtension.In.strokes h

end In

end Kotlin

end ModelForge
