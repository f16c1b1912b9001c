/-
Every generated file is well bracketed.

Brackets are opened and closed by hand, many lines apart, in the fixed text that code is put
together with.  Names bring in no further ones as long as there are none in the names of the model:

* `nest` — the brackets that are open after others, if each of these closes the innermost one;
* `Balanced` — brackets that close what they open, and nothing else;
* `Expr.balanced_pieces`, `Factory.balanced_strokes` and so on — so do the brackets of an
  expression, of a factory and of all that a file declares: `Content.balanced_strokes`;
* `marksOf_displayWords` — text whose names have no brackets has those of its fixed text;
* `Model.sourceNames` — the names that a model takes from its sources.  If none of them has a
  bracket, then no name in a file has one: `Model.plain_of_supplies`.

Together with the depths of lines, this makes up the main statement: `Context.nested_of_modelAlone`.
-/
import ModelForge.Proofs.DerivedNames
import ModelForge.Proofs.HiddenNames
import ModelForge.Proofs.SuppliedNames

namespace ModelForge

open Kotlin

namespace Kotlin

/-! ### Nesting -/

/-- The brackets that are open after some more, the innermost one first. There is no result if
one of these closes another bracket than the innermost one. -/
def nest : List Bracket → List Mark → Option (List Bracket)
  | opened, [] => some opened
  | opened, .opening b :: ms => nest (b :: opened) ms
  | b :: opened, .closing c :: ms => if b = c then nest opened ms else none
  | [], .closing _ :: _ => none

/-- The brackets of a text are properly nested, and all closed in the end. -/
def Nested (text : String) : Prop :=
  nest [] (marksOf text) = some []

instance (text : String) : Decidable (Nested text) :=
  inferInstanceAs (Decidable (_ = _))

/-- The brackets close all that they open, and nothing else. -/
def Balanced (ms : List Mark) : Prop :=
  ∀ opened rest, nest opened (ms ++ rest) = nest opened rest

@[simp] theorem nest_nil (opened : List Bracket) : nest opened [] = some opened := by
  cases opened <;> rfl

@[simp] theorem nest_opening (opened : List Bracket) (b : Bracket) (ms : List Mark) :
    nest opened (.opening b :: ms) = nest (b :: opened) ms := by
  cases opened <;> rfl

@[simp] theorem nest_closing (opened : List Bracket) (b : Bracket) (ms : List Mark) :
    nest (b :: opened) (.closing b :: ms) = nest opened ms := by
  rw [nest, if_pos rfl]

@[simp] theorem nest_append_of_balanced {ms : List Mark} (h : Balanced ms)
    (opened : List Bracket) (rest : List Mark) : nest opened (ms ++ rest) = nest opened rest :=
  h opened rest

@[simp] theorem balanced_nil : Balanced [] :=
  fun _ _ => rfl

@[simp] theorem balanced_append {ms ns : List Mark} (h : Balanced ms) (h' : Balanced ns) :
    Balanced (ms ++ ns) := by
  intro opened rest
  rw [List.append_assoc, h, h']

/-- What comes after some brackets may be replaced by what closes the same ones. -/
theorem nest_append_congr {ns ns' : List Mark} (h : ∀ opened, nest opened ns = nest opened ns')
    (ms : List Mark) (opened : List Bracket) :
    nest opened (ms ++ ns) = nest opened (ms ++ ns') := by
  induction ms generalizing opened with
  | nil => exact h opened
  | cons m ms ih =>
    cases m with
    | opening b => simpa using ih (b :: opened)
    | closing b =>
      cases opened with
      | nil => rfl
      | cons c opened =>
        rw [List.cons_append, List.cons_append, nest, nest]
        split
        · exact ih opened
        · rfl

theorem balanced_flatMap {α : Type} {f : α → List Mark} {as : List α}
    (h : ∀ a ∈ as, Balanced (f a)) : Balanced (as.flatMap f) := by
  induction as with
  | nil => exact balanced_nil
  | cons a as ih =>
    obtain ⟨ha, has⟩ := List.forall_mem_cons.1 h
    rw [List.flatMap_cons]
    exact balanced_append ha (ih has)

/-! ### The brackets of code -/

section Marks

variable {C T : Type}

/-- The brackets of several pieces. -/
def pieceMarks (ps : List (Piece C T)) : List Mark :=
  ps.flatMap Piece.marks

/-- The brackets of several strokes. -/
def strokeMarks (ss : List (Stroke C T)) : List Mark :=
  ss.flatMap fun s => pieceMarks s.pieces

@[simp] theorem pieceMarks_nil : pieceMarks ([] : List (Piece C T)) = [] := rfl

@[simp] theorem pieceMarks_append (ps qs : List (Piece C T)) :
    pieceMarks (ps ++ qs) = pieceMarks ps ++ pieceMarks qs := List.flatMap_append

@[simp] theorem pieceMarks_code (text : String) (marks : List Mark) (h : marksOf text = marks)
    (ps : List (Piece C T)) : pieceMarks (.code text marks h :: ps) = marks ++ pieceMarks ps := rfl

@[simp] theorem pieceMarks_name (role : Role) (n : String) (ps : List (Piece C T)) :
    pieceMarks (.name role n :: ps) = pieceMarks ps := rfl

@[simp] theorem pieceMarks_reference (c : C) (ps : List (Piece C T)) :
    pieceMarks (.reference c :: ps) = pieceMarks ps := rfl

@[simp] theorem pieceMarks_type (t : T) (ps : List (Piece C T)) :
    pieceMarks (.type t :: ps) = pieceMarks ps := rfl

@[simp] theorem pieceMarks_dotPiece (safe : Bool) (ps : List (Piece C T)) :
    pieceMarks (dotPiece safe :: ps) = pieceMarks ps := by
  cases safe <;> rfl

@[simp] theorem pieceMarks_side (side : Side) (ps : List (Piece C T)) :
    pieceMarks (side.piece :: ps) = pieceMarks ps := by
  cases side <;> rfl

@[simp] theorem pieceMarks_combinator (combinator : Combinator) (ps : List (Piece C T)) :
    pieceMarks (combinator.piece :: ps) = pieceMarks ps := by
  cases combinator <;> rfl

@[simp] theorem strokeMarks_nil : strokeMarks ([] : List (Stroke C T)) = [] := rfl

@[simp] theorem strokeMarks_cons (s : Stroke C T) (ss : List (Stroke C T)) :
    strokeMarks (s :: ss) = pieceMarks s.pieces ++ strokeMarks ss := rfl

@[simp] theorem strokeMarks_append (ss ts : List (Stroke C T)) :
    strokeMarks (ss ++ ts) = strokeMarks ss ++ strokeMarks ts := List.flatMap_append

/-- A block opens and closes its braces. -/
@[simp] theorem balanced_blockPieces {ps : List (Piece C T)} (h : Balanced (pieceMarks ps)) :
    Balanced (pieceMarks (blockPieces ps)) := by
  intro opened rest
  simp [blockPieces, h]

@[simp] theorem balanced_blockHeadPieces (name : Option String) :
    Balanced (pieceMarks (blockHeadPieces name : List (Piece C T))) := by
  cases name <;> exact balanced_nil

/-- An expression closes all that it opens. -/
@[simp] theorem Expr.balanced_pieces (e : Expr C) :
    Balanced (pieceMarks (e.pieces : List (Piece C T))) := by
  induction e with
  | parameter | held | it | null | object => exact balanced_nil
  | make _ nullable _ ih =>
    intro opened rest
    cases nullable <;> simp [pieces, ih]
  | wrap _ _ ih | right _ _ ih | content _ ih | validate _ _ ih | build _ _ ih =>
    intro opened rest
    simp [pieces, ih]
  | letIt _ _ ihfirst ihsecond | flatMap _ _ ihfirst ihsecond | orElse _ _ ihfirst ihsecond =>
    intro opened rest
    simp [pieces, ihfirst, ihsecond]
  | map _ _ name _ ihreceiver ihblock =>
    have hblock := balanced_append (balanced_blockHeadPieces (C := C) (T := T) name) ihblock
    intro opened rest
    simp [pieces, ihreceiver, hblock]
  | fold _ _ _ _ ihreceiver ihabsent ihpresent =>
    intro opened rest
    simp [pieces, ihreceiver, ihabsent, ihpresent]

/-- Lines one after the other, each of which closes all that it opens. -/
theorem balanced_lines {α : Type} {f : α → List (Piece C T)} {as : List α}
    (h : ∀ a ∈ as, Balanced (pieceMarks (f a))) :
    Balanced (strokeMarks (as.map fun a => .line (f a))) := by
  rw [strokeMarks, List.flatMap_map]
  exact balanced_flatMap h

theorem balanced_entryStrokes {entries : List (List (Piece C T))}
    (h : ∀ entry ∈ entries, Balanced (pieceMarks entry)) :
    Balanced (strokeMarks (entryStrokes entries)) := by
  induction entries with
  | nil => exact balanced_nil
  | cons entry entries ih =>
    obtain ⟨hentry, hentries⟩ := List.forall_mem_cons.1 h
    have hrest := ih hentries
    intro opened rest
    cases entries with
    | nil => simp [entryStrokes, hentry]
    | cons next entries => simp [entryStrokes, hentry, hrest]

/-- Of a list that closes all that its entries open, only the head and the tail count. -/
theorem nest_listStrokes (head : List (Piece C T)) {entries : List (List (Piece C T))}
    (hentries : ∀ entry ∈ entries, Balanced (pieceMarks entry)) (tail : List (Piece C T))
    (opened : List Bracket) (rest : List Mark) :
    nest opened (strokeMarks (listStrokes head entries tail) ++ rest) =
      nest opened (pieceMarks head ++ (pieceMarks tail ++ rest)) := by
  have hlist := balanced_entryStrokes hentries
  -- the head may leave brackets open, so only what comes after it is rewritten
  unfold listStrokes
  split
  · simp only [strokeMarks_cons, strokeMarks_nil, pieces_line, pieceMarks_append, pieceMarks_code,
      List.append_nil, List.append_assoc]
    exact nest_append_congr (fun stack => by simp) _ opened
  · simp only [strokeMarks_cons, strokeMarks_append, strokeMarks_nil, pieces_opening,
      pieces_closing, pieceMarks_append, pieceMarks_code, pieceMarks_nil, List.append_nil,
      List.append_assoc]
    exact nest_append_congr (fun stack => by simp [hlist]) _ opened

@[simp] theorem Parameter.balanced_pieces (p : Parameter T) :
    Balanced (pieceMarks (p.pieces : List (Piece C T))) := balanced_nil

@[simp] theorem Parameter.balanced_fieldPieces (p : Parameter T) :
    Balanced (pieceMarks (p.fieldPieces : List (Piece C T))) := balanced_nil

@[simp] theorem balanced_passedOnPieces (name : String) :
    Balanced (pieceMarks (passedOnPieces name : List (Piece C T))) := balanced_nil

@[simp] theorem Argument.balanced_pieces (a : Argument C) :
    Balanced (pieceMarks (a.pieces : List (Piece C T))) := by
  intro opened rest
  simp [pieces]

@[simp] theorem Local.balanced_pieces (l : Local C T) : Balanced (pieceMarks l.pieces) := by
  intro opened rest
  unfold pieces
  cases l.type <;> simp

@[simp] theorem Receiver.balanced_pieces (r : Receiver C) :
    Balanced (pieceMarks (r.pieces : List (Piece C T))) := balanced_nil

@[simp] theorem Variant.balanced_pieces (v : Variant C T) : Balanced (pieceMarks v.pieces) := by
  intro opened rest
  simp [pieces]

@[simp] theorem balanced_defaultPieces (absent : Option C) :
    Balanced (pieceMarks (defaultPieces absent : List (Piece C T))) := by
  cases absent <;> exact balanced_nil

@[simp] theorem OnlyParameter.balanced_pieces (absent : C) (p : OnlyParameter T) :
    Balanced (pieceMarks (p.pieces absent)) := by
  unfold pieces
  cases p.optional <;> exact balanced_nil

@[simp] theorem balanced_conditionsPieces (either : C) (cs : List (Condition C)) :
    Balanced (pieceMarks (conditionsPieces either cs : List (Piece C T))) := by
  induction cs with
  | nil => exact balanced_nil
  | cons c cs ih =>
    intro opened rest
    cases cs with
    | nil => simp [conditionsPieces, Condition.pieces]
    | cons d cs => simp [conditionsPieces, Condition.pieces, ih]

@[simp] theorem FailureCase.balanced_pieces (either variants : C) (c : FailureCase C) :
    Balanced (pieceMarks (c.pieces either variants : List (Piece C T))) := by
  intro opened rest
  simp [pieces, Condition.pieces]

/-! ### The brackets of declarations -/

/-- The construction of a class closes all but what its head opens. -/
theorem Factory.nest_successStrokes (f : Factory C T) (head : List (Piece C T))
    (opened : List Bracket) (rest : List Mark) :
    nest opened (strokeMarks (f.successStrokes head) ++ rest) =
      nest opened (pieceMarks head ++ rest) := by
  have harguments : ∀ entry ∈ f.arguments.map Argument.pieces,
      Balanced (pieceMarks (entry : List (Piece C T))) :=
    List.forall_mem_map.2 fun a _ => a.balanced_pieces
  rw [successStrokes, nest_listStrokes _ harguments, pieceMarks_append, List.append_assoc]
  exact nest_append_congr (fun stack => by simp) _ opened

theorem Factory.balanced_outcomeStrokes (f : Factory C T) :
    Balanced (strokeMarks f.outcomeStrokes) := by
  intro opened rest
  unfold outcomeStrokes
  cases f.failure with
  | none => simp [nest_successStrokes]
  | some b =>
    -- no line of the two branches is balanced by itself, but the cases are, and the rest is fixed
    have hcases : Balanced (strokeMarks
        (b.cases.map fun c => (.line (c.pieces f.either b.variants) : Stroke C T))) :=
      balanced_lines fun c _ => c.balanced_pieces f.either b.variants
    simp [nest_successStrokes, closeStroke, hcases]

/-- A factory closes all that it opens. -/
@[simp] theorem Factory.balanced_strokes (f : Factory C T) : Balanced (strokeMarks f.strokes) := by
  have howner : Balanced (pieceMarks (ownerPieces f.receiver : List (Piece C T))) := by
    cases f.receiver with
    | none => exact balanced_nil
    | some r => exact r.balanced_pieces
  have hparameters : ∀ entry ∈ f.parameters.map Parameter.pieces,
      Balanced (pieceMarks (entry : List (Piece C T))) :=
    List.forall_mem_map.2 fun p _ => p.balanced_pieces
  have hlocals : Balanced (strokeMarks (f.locals.map fun l => .line l.pieces)) :=
    balanced_lines fun l _ => l.balanced_pieces
  have houtcome := f.balanced_outcomeStrokes
  intro opened rest
  simp [strokes, closeStroke, nest_listStrokes _ hparameters, howner, hlocals, houtcome]

/-- After the head of a class, its brace is open. -/
theorem nest_classHeadStrokes (name : C) {fields : List (List (Piece C T))}
    (hfields : ∀ field ∈ fields, Balanced (pieceMarks field)) (opened : List Bracket)
    (rest : List Mark) :
    nest opened (strokeMarks (classHeadStrokes name fields) ++ rest) =
      nest (.curly :: opened) rest := by
  unfold classHeadStrokes
  split
  · simp
  · simp [nest_listStrokes _ hfields]

theorem FailureUnion.balanced_strokes (u : FailureUnion C T) :
    Balanced (strokeMarks u.strokes) := by
  unfold strokes
  rw [strokeMarks_append]
  refine balanced_append ?_ ?_
  · split
    · exact balanced_nil
    · have hvariants : Balanced (strokeMarks (u.variants.map fun v => .line v.pieces)) :=
        balanced_lines fun v _ => v.balanced_pieces
      intro opened rest
      simp [closeStroke, hvariants]
  · split <;> exact balanced_nil

@[simp] theorem balanced_factoriesStrokes (fs : List (Factory C T)) :
    Balanced (strokeMarks (factoriesStrokes fs)) := by
  induction fs with
  | nil => exact balanced_nil
  | cons f fs ih =>
    intro opened rest
    cases fs with
    | nil => simp [factoriesStrokes]
    | cons g fs => simp [factoriesStrokes, ih]

theorem balanced_fields (ps : List (Parameter T)) :
    ∀ field ∈ ps.map Parameter.fieldPieces, Balanced (pieceMarks (field : List (Piece C T))) :=
  List.forall_mem_map.2 fun p _ => p.balanced_fieldPieces

theorem DataClass.balanced_strokes (d : DataClass C T) : Balanced (strokeMarks d.strokes) := by
  intro opened rest
  simp [strokes, companionStroke, closeStroke, nest_classHeadStrokes _ (balanced_fields d.fields)]

/-- The steps of a builder close all but what the head opens. -/
theorem nest_stepStrokes (params : C) {arguments : List (List (Piece C T))}
    (harguments : ∀ a ∈ arguments, Balanced (pieceMarks a)) (steps : List (BuildStep C))
    (head : List (Piece C T)) (opened : List Bracket) (rest : List Mark) :
    nest opened (strokeMarks (stepStrokes params arguments head steps) ++ rest) =
      nest opened (pieceMarks head ++ rest) := by
  -- a step leaves the brace of its block open, and closes it after all steps inside
  induction steps generalizing head opened rest with
  | nil => simp [stepStrokes, nest_listStrokes _ harguments]
  | cons s steps ih =>
    simp only [stepStrokes, strokeMarks_cons, strokeMarks_append, strokeMarks_nil, pieces_opening,
      pieceMarks_append, List.append_nil, List.append_assoc]
    refine nest_append_congr (fun stack => ?_) _ opened
    simp [closeStroke, ih]

theorem BuildBody.balanced_strokes (params : C) (body : BuildBody C) :
    Balanced (strokeMarks (body.strokes params : List (Stroke C T))) := by
  intro opened rest
  cases body with
  | present wrapper => simp [strokes]
  | chain steps arguments =>
    have harguments : ∀ a ∈ arguments.map Argument.pieces,
        Balanced (pieceMarks (a : List (Piece C T))) :=
      List.forall_mem_map.2 fun a _ => a.balanced_pieces
    simp [strokes, nest_stepStrokes params harguments]

theorem Builder.balanced_strokes (b : Builder C T) : Balanced (strokeMarks b.strokes) := by
  have hbody : Balanced (strokeMarks (b.body.strokes b.params : List (Stroke C T))) :=
    b.body.balanced_strokes b.params
  have hparameters : ∀ entry ∈ b.staged.map fun p =>
      p.pieces ++ .code " = " :: defaultPieces b.absent,
      Balanced (pieceMarks (entry : List (Piece C T))) := by
    refine List.forall_mem_map.2 fun p _ => ?_
    rw [pieceMarks_append]
    exact balanced_append p.balanced_pieces (balanced_defaultPieces b.absent)
  have hpassedOn : ∀ entry ∈ b.staged.map fun p => passedOnPieces p.name,
      Balanced (pieceMarks (entry : List (Piece C T))) :=
    List.forall_mem_map.2 fun p _ => balanced_passedOnPieces p.name
  intro opened rest
  simp [strokes, companionStroke, closeStroke, nest_classHeadStrokes _ (balanced_fields b.staged),
    nest_listStrokes _ hparameters, nest_listStrokes _ hpassedOn, hbody]

theorem OnlyExtension.balanced_strokes (f : OnlyExtension C T) :
    Balanced (strokeMarks f.strokes) := by
  have hparameters : ∀ entry ∈ f.parameters.map (·.pieces f.absent),
      Balanced (pieceMarks (entry : List (Piece C T))) :=
    List.forall_mem_map.2 fun p _ => p.balanced_pieces f.absent
  have hpassedOn : ∀ entry ∈ f.parameters.map fun p => passedOnPieces p.name,
      Balanced (pieceMarks (entry : List (Piece C T))) :=
    List.forall_mem_map.2 fun p _ => balanced_passedOnPieces p.name
  intro opened rest
  simp [strokes, closeStroke, nest_listStrokes _ hparameters, nest_listStrokes _ hpassedOn]

/-- What a file declares closes all that it opens, whatever its names are. -/
theorem Content.balanced_strokes (c : Content C T) : Balanced (strokeMarks c.strokes) := by
  cases c with
  | failureUnion u => exact u.balanced_strokes
  | dataClass d => exact d.balanced_strokes
  | builder b => exact b.balanced_strokes
  | factory f => exact f.balanced_strokes
  | only f => exact f.balanced_strokes

end Marks

/-! ### The brackets of a text -/

/-- The text has no brackets. -/
def Plain (text : String) : Prop :=
  marksOf text = []

instance (text : String) : Decidable (Plain text) :=
  inferInstanceAs (Decidable (_ = _))

theorem plain_iff {text : String} : Plain text ↔ ∀ c ∈ text.toList, markOf c = none :=
  List.filterMap_eq_nil_iff

theorem Plain.append {s t : String} (hs : Plain s) (ht : Plain t) : Plain (s ++ t) := by
  unfold Plain at hs ht ⊢
  rw [marksOf_append, hs, ht]
  rfl

/-- The part of a dotted name has only characters of the name. -/
theorem Plain.of_mem_dotted {name s : String} (hname : Plain name) (hs : s ∈ dotted name) :
    Plain s := by
  obtain ⟨w, hw, rfl⟩ := List.mem_map.1 hs
  obtain ⟨first, others, hsegments⟩ := exists_segmentsOf_eq_cons name.toList
  have hchars := (segmentsOf_eq_cons_iff.1 hsegments).1
  rw [hsegments] at hw
  rw [plain_iff] at hname ⊢
  intro c hc
  rw [String.toList_ofList] at hc
  refine hname c ?_
  rw [hchars, List.mem_append, List.mem_flatMap]
  rcases List.mem_cons.1 hw with rfl | hw
  · exact .inl hc
  · exact .inr ⟨w, hw, List.mem_cons_of_mem _ hc⟩

/-- Escaping brings in no brackets. -/
theorem Plain.identifier {name : String} (h : Plain name) : Plain (identifier name) := by
  have hquote : Plain "\x60" := by decide
  unfold Kotlin.identifier
  split
  · exact (hquote.append h).append hquote
  · exact h

theorem plain_capitalized {name : String} (h : Plain name) : Plain (capitalized name) := by
  rw [plain_iff] at h ⊢
  intro c hc
  rcases mem_capitalized hc with hname | hcapital
  · exact h c hname
  · -- the codes of the brackets are those of no letters
    have hround : c ≠ '(' ∧ c ≠ ')' := by
      constructor <;> (rintro rfl; exact absurd hcapital (by decide))
    have hcurly : c ≠ '\x7b' ∧ c ≠ '\x7d' := by
      constructor <;> (rintro rfl; exact absurd hcapital (by decide))
    simp [markOf, hround, hcurly]

/-- The brackets of fixed text. A name has none. -/
def Word.marks : Word → List Mark
  | code text => marksOf text
  | name _ _ => []

/-- A text whose names have no brackets has those of its fixed text. -/
theorem marksOf_displayWords {ws : List Word} (h : WordsIn (fun _ n => Plain n) ws) :
    marksOf (displayWords ws) = ws.flatMap Word.marks := by
  induction ws with
  | nil => rfl
  | cons w ws ih =>
    have hws := ih fun role n hn => h role n (List.mem_cons_of_mem _ hn)
    have hw : marksOf w.display = w.marks := by
      cases w with
      | code text => rfl
      | name role n =>
        have hplain : Plain n := h role n List.mem_cons_self
        cases role with
        | property => exact hplain.identifier
        | _ => exact hplain
    rw [displayWords_cons, marksOf_append, hw, hws, List.flatMap_cons]

@[simp] theorem marks_segmentWords (ns : List String) :
    (segmentWords ns).flatMap Word.marks = [] := by
  induction ns with
  | nil => rfl
  | cons n ns ih =>
    have hdot : marksOf "." = [] := by decide
    cases ns with
    | nil => rfl
    | cons m ns => simp [segmentWords, Word.marks, hdot, ih]

namespace TypeUse

mutual

theorem marks_words : ∀ t : TypeUse, t.words.flatMap Word.marks = []
  | mk use arguments nullable => by
    have hmark : marksOf "?" = [] := by decide
    have harguments := marks_wordsOfList arguments
    cases nullable <;> simp [words, dottedWords, Word.marks, harguments, hmark]

theorem marks_wordsOf : ∀ a : Option TypeUse, (wordsOf a).flatMap Word.marks = []
  | none => by decide
  | some t => marks_words t

theorem marks_wordsOfList : ∀ as : List (Option TypeUse),
    (wordsOfList as).flatMap Word.marks = []
  | [] => rfl
  | a :: as => by
    have hopen : marksOf "<" = [] := by decide
    have hfirst := marks_wordsOf a
    have hrest := marks_wordsOfRest as
    simp [wordsOfList, Word.marks, hopen, hfirst, hrest]

theorem marks_wordsOfRest : ∀ as : List (Option TypeUse),
    (wordsOfRest as).flatMap Word.marks = []
  | [] => by decide
  | a :: as => by
    have hcomma : marksOf ", " = [] := by decide
    have hfirst := marks_wordsOf a
    have hrest := marks_wordsOfRest as
    simp [wordsOfRest, Word.marks, hcomma, hfirst, hrest]

end

end TypeUse

/-- The words of pieces have the brackets of the pieces. -/
theorem marks_flatMap_words (ps : List (Piece ClassUse TypeUse)) :
    (ps.flatMap Piece.words).flatMap Word.marks = pieceMarks ps := by
  induction ps with
  | nil => rfl
  | cons p ps ih =>
    have hp : p.words.flatMap Word.marks = p.marks := by
      cases p with
      | code text marks h => simp [Piece.words, Piece.marks, Word.marks, h]
      | name role n => rfl
      | reference c => exact marks_segmentWords _
      | type t => exact t.marks_words
    rw [List.flatMap_cons, List.flatMap_append, hp, ih]
    rfl

/-- A line without text has no brackets. -/
theorem pieceMarks_eq_nil {ps : List (Piece ClassUse TypeUse)} (h : Piece.displayAll ps = "") :
    pieceMarks ps = [] := by
  induction ps with
  | nil => rfl
  | cons p ps ih =>
    rw [Piece.displayAll_cons, String.append_eq_empty_iff] at h
    have hp : p.marks = [] := by
      cases p with
      | code text marks hmarks =>
        have htext : text = "" := h.1
        rw [htext] at hmarks
        exact hmarks.symm
      | _ => rfl
    rw [pieceMarks, List.flatMap_cons, hp]
    exact ih h.2

theorem marksOf_replicate_blank (n : Nat) :
    marksOf (String.ofList (List.replicate n ' ')) = [] := by
  have hblank : Plain (String.ofList (List.replicate n ' ')) := by
    rw [plain_iff]
    intro c hc
    rw [String.toList_ofList] at hc
    rw [List.eq_of_mem_replicate hc]
    decide
  exact hblank

theorem Row.marks_words (r : Row) : r.words.flatMap Word.marks = pieceMarks r.pieces := by
  have hend : marksOf "\n" = [] := by decide
  unfold words
  split
  · rename_i hempty
    rw [pieceMarks_eq_nil hempty]
    simp [Word.marks, hend]
  · simp [Word.marks, hend, marksOf_replicate_blank, marks_flatMap_words]

theorem marks_writeAll (depth : Nat) (ss : List (Stroke ClassUse TypeUse)) :
    ((writeAll depth ss).flatMap Row.words).flatMap Word.marks = strokeMarks ss := by
  induction ss generalizing depth with
  | nil => rfl
  | cons s ss ih =>
    have hs : ((s.rows depth).flatMap Row.words).flatMap Word.marks = pieceMarks s.pieces := by
      cases s <;> simp [Stroke.rows, Stroke.pieces, Row.marks_words]
    rw [writeAll, List.flatMap_append, List.flatMap_append, hs, ih, strokeMarks_cons]

/-- The head of a file has no brackets, so a file has those of what it declares. -/
theorem File.marks_words (f : File) :
    f.words.flatMap Word.marks = strokeMarks f.spelled.1.strokes := by
  have hheader : marksOf (generatedHeader ++ "\n\n") = [] := by decide
  have hpackage : (packageWords f.package).flatMap Word.marks = [] := by
    have hfirst : marksOf "package " = [] := by decide
    have hend : marksOf "\n\n" = [] := by decide
    unfold packageWords
    split
    · rfl
    · simp [dottedWords, Word.marks, hfirst, hend]
  have himports : (importWords f.spelled.2.lines).flatMap Word.marks = [] := by
    have hfirst : marksOf "import " = [] := by decide
    have hend : marksOf "\n" = [] := by decide
    unfold importWords
    split
    · rfl
    · simp [List.flatMap_assoc, dottedWords, Word.marks, hfirst, hend]
  simp [words, Word.marks, hheader, hpackage, himports, marks_writeAll]

/-- A file without brackets in its names is properly nested. -/
theorem File.nested (f : File) (h : WordsIn (fun _ n => Plain n) f.words) : Nested f.text := by
  have hbalanced : Balanced (strokeMarks f.spelled.1.strokes) := f.spelled.1.balanced_strokes
  have hmarks := marksOf_displayWords h
  rw [f.displayWords_words, f.marks_words] at hmarks
  have hnest := hbalanced [] []
  rw [List.append_nil] at hnest
  rw [Nested, hmarks, hnest]
  rfl

end Kotlin

/-! ### The names of a model -/

/-- The names that a model is called by, and what is generated beside it. -/
def ModelNames.sourceNames (n : ModelNames) : List String :=
  n.package :: n.base :: n.model.classNames

namespace PropertyKind

mutual

/-- The names of the classes of a property, with those of other models as these are called in the
sources. -/
def sourceNames : PropertyKind → List String
  | standard type arguments => type.classNames ++ sourceNamesOfList arguments
  | value v | optionalValue v _ => v.typeNames
  | model m | optionalModel m _ | modelList m _ | modelNonEmptyList m _ => m.names.sourceNames

/-- The names of the classes of an argument. -/
def sourceNamesOf : Option PropertyKind → List String
  | none => []
  | some kind => sourceNames kind

/-- The names of the classes of the arguments. -/
def sourceNamesOfList : List (Option PropertyKind) → List String
  | [] => []
  | a :: as => sourceNamesOf a ++ sourceNamesOfList as

end

end PropertyKind

/-- The names that a model takes from its sources: of packages and classes, of properties, of the
templates' functions and of the companion. -/
def Model.sourceNames (m : Model) : List String :=
  m.names.sourceNames ++ (m.properties.flatMap (fun p => p.name :: p.kind.sourceNames) ++
    (m.templates.map (·.function) ++ m.target.companions))

theorem plain_qualify {package name : String} (hpackage : Plain package) (hname : Plain name) :
    Plain (qualify package name) := by
  have hdot : Plain "." := by decide
  unfold qualify
  split
  · exact hname
  · exact (hpackage.append hdot).append hname

/-- The endings of generated classes have no brackets. -/
theorem ModelNames.plain_typeNames {n : ModelNames} (h : ∀ s ∈ n.sourceNames, Plain s) :
    ∀ s ∈ n.typeNames, Plain s := by
  have hendings : ∀ ending ∈ generatedEndings, Plain ending := by decide
  obtain ⟨hpackage, hnames⟩ := List.forall_mem_cons.1 h
  obtain ⟨hbase, hmodel⟩ := List.forall_mem_cons.1 hnames
  refine List.forall_mem_append.2 ⟨hmodel, List.forall_mem_map.2 fun ending hending => ?_⟩
  exact plain_qualify hpackage (hbase.append (hendings ending hending))

namespace PropertyKind

mutual

theorem plain_typeNames : ∀ kind : PropertyKind,
    (∀ s ∈ kind.sourceNames, Plain s) → ∀ s ∈ kind.typeNames, Plain s
  | standard type arguments, h => by
    obtain ⟨htype, harguments⟩ := List.forall_mem_append.1 h
    exact List.forall_mem_append.2 ⟨htype, plain_typeNamesOfList arguments harguments⟩
  | value v, h | optionalValue v _, h => h
  | model m, h | optionalModel m _, h | modelList m _, h | modelNonEmptyList m _, h =>
    ModelNames.plain_typeNames h

theorem plain_typeNamesOf : ∀ a : Option PropertyKind,
    (∀ s ∈ sourceNamesOf a, Plain s) → ∀ s ∈ typeNamesOf a, Plain s
  | none, h => h
  | some kind, h => plain_typeNames kind h

theorem plain_typeNamesOfList : ∀ as : List (Option PropertyKind),
    (∀ s ∈ sourceNamesOfList as, Plain s) → ∀ s ∈ typeNamesOfList as, Plain s
  | [], h => h
  | a :: as, h => by
    obtain ⟨ha, has⟩ := List.forall_mem_append.1 h
    exact List.forall_mem_append.2 ⟨plain_typeNamesOf a ha, plain_typeNamesOfList as has⟩

end

end PropertyKind

/-- What a model supplies has no brackets if the names of its sources have none. -/
theorem Model.plain_of_supplies {m : Model} (h : ∀ n ∈ m.sourceNames, Plain n) {role : Role}
    {n : String} (hn : m.Supplies role n) : Plain n := by
  obtain ⟨hnames, hrest⟩ := List.forall_mem_append.1 h
  obtain ⟨hproperties, hrest⟩ := List.forall_mem_append.1 hrest
  obtain ⟨htemplates, hcompanions⟩ := List.forall_mem_append.1 hrest
  have hproperty : ∀ p ∈ m.properties, Plain p.name ∧ ∀ s ∈ p.kind.sourceNames, Plain s := by
    intro p hp
    exact List.forall_mem_cons.1 fun s hs => hproperties s (List.mem_flatMap.2 ⟨p, hp, hs⟩)
  have htypes : ∀ s ∈ m.typeNames, Plain s := by
    have hlibrary : ∀ s ∈ libraryNames, Plain s := by decide
    refine List.forall_mem_append.2 ⟨hlibrary, List.forall_mem_append.2
      ⟨ModelNames.plain_typeNames hnames, fun s hs => ?_⟩⟩
    obtain ⟨p, hp, hs⟩ := List.mem_flatMap.1 hs
    exact p.kind.plain_typeNames (hproperty p hp).2 s hs
  cases hn with
  | property hp => exact (hproperty _ hp).1
  | result hp =>
    have hletter : Plain "v" := by decide
    exact hletter.append (plain_capitalized (hproperty _ hp).1)
  | element | factory => decide
  | variant hp => exact plain_capitalized (hproperty _ hp).1
  | template ht => exact htemplates _ (List.mem_map_of_mem ht)
  | companion hm =>
    rw [hm] at hcompanions
    exact hcompanions _ (List.mem_singleton_self _)
  | package hs => exact Plain.of_mem_dotted (hnames _ List.mem_cons_self) hs
  | ofClass hname hs => exact Plain.of_mem_dotted (htypes _ hname) hs

/-- **Generated files are well bracketed.**  If no name in the sources of an analyzed model has a
bracket, then the brackets of each of its files are properly nested, and all closed in the end.  The
lines of the file are those that its strokes write: these end at depth zero, and whenever they close
a level, the depth is not zero. -/
theorem Context.nested_of_modelAlone {ctx : Context} {t : Target} {m : Model}
    (h : ctx.modelAlone t = .ok m) (hplain : ∀ n ∈ m.sourceNames, Plain n) (option : String) :
    ∃ files, m.files option = .ok files ∧ ∀ f ∈ files,
      Nested f.text ∧
      (writeAll 0 f.spelled.1.strokes).map Row.line = f.spelled.1.lines ∧
      depthAfter 0 f.spelled.1.strokes = 0 ∧
      ∀ before ps after, f.spelled.1.strokes = before ++ .closing ps :: after →
        0 < depthAfter 0 before := by
  obtain ⟨others, hfiles⟩ := Model.files_eq_cons option (fitsMark_of_modelAlone h).1
  refine ⟨_, hfiles, fun f hf => ?_⟩
  have hwrites := f.spelled.1.writes_strokes
  have hnames : WordsIn (fun _ n => Plain n) f.words := by
    intro role n hn
    exact Model.plain_of_supplies hplain (Model.supplies_of_mem_words hfiles hf role n hn)
  exact ⟨f.nested hnames, hwrites.writeAll_eq.2, hwrites.writeAll_eq.1,
    fun before ps after hstrokes => hwrites.depthAfter_pos hstrokes⟩

theorem Context.nested_of_modelAlone_account :
    ∃ m, Sample.bank.modelAlone Sample.account = .ok m ∧ (∀ n ∈ m.sourceNames, Plain n) ∧
      ∃ files, m.files "arrow.core.Option" = .ok files ∧ ∀ f ∈ files, Nested f.text := by
  have hplain : (Sample.bank.modelAlone Sample.account).map
      (fun m => decide (∀ n ∈ m.sourceNames, Plain n)) = .ok true := by
    decide +kernel
  obtain ⟨m, hm, hplain⟩ := Json.map_eq_ok_iff.1 hplain
  have hnames := of_decide_eq_true hplain
  obtain ⟨files, hfiles, hall⟩ := Context.nested_of_modelAlone hm hnames "arrow.core.Option"
  exact ⟨m, hm, hnames, files, hfiles, fun f hf => (hall f hf).1⟩

end ModelForge
