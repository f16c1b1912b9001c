/-
How a file is written.

The strokes of a file are written one after the other, each at the depth that the ones before lead
to:

* `depthAfter`, `writeAll` — where strokes lead from a depth on, and what they write.  A level
  that is closed at depth zero is not left;
* `Writes` — strokes that close no level at depth zero, with the lines that they come to;
* `File.words` — the words of a whole file.

The strokes of a file come to its lines: the main statement is `Content.writes_strokes`.  A file is
written as its words are: `File.displayWords_words`.
-/
import ModelForge.Proofs.CodePieces

namespace ModelForge.Kotlin

open Piece (displayAll)

/-! ### Writing -/

/-- A line at a depth, as pieces. -/
structure Row where
  depth : Nat
  pieces : List (Piece ClassUse TypeUse)

/-- The written form of a row. -/
def Row.line (r : Row) : Line :=
  ⟨r.depth, displayAll r.pieces⟩

/-- The depth after a stroke. A level that is closed at depth zero is not left. -/
def Stroke.after {C T : Type} (depth : Nat) : Stroke C T → Nat
  | line _ | blank => depth
  | opening _ | indent => depth + 1
  | closing _ => depth - 1

/-- What a stroke writes at a depth. -/
def Stroke.rows (depth : Nat) : Stroke ClassUse TypeUse → List Row
  | line ps | opening ps => [⟨depth, ps⟩]
  | blank => [⟨0, []⟩]
  | closing ps => [⟨depth - 1, ps⟩]
  | indent => []

/-- The depth after several strokes. -/
def depthAfter {C T : Type} (depth : Nat) (ss : List (Stroke C T)) : Nat :=
  ss.foldl Stroke.after depth

/-- What several strokes write from a depth on. -/
def writeAll (depth : Nat) : List (Stroke ClassUse TypeUse) → List Row
  | [] => []
  | s :: ss => s.rows depth ++ writeAll (s.after depth) ss

/-- The strokes lead from one depth to another, write the lines, and close no level at depth
zero. -/
inductive Writes : Nat → List (Stroke ClassUse TypeUse) → Nat → List Line → Prop
  | nil {n : Nat} : Writes n [] n []
  | line {n m : Nat} {ps : List (Piece ClassUse TypeUse)} {ss : List (Stroke ClassUse TypeUse)}
      {ls : List Line} (h : Writes n ss m ls) :
      Writes n (.line ps :: ss) m (⟨n, displayAll ps⟩ :: ls)
  | blank {n m : Nat} {ss : List (Stroke ClassUse TypeUse)} {ls : List Line}
      (h : Writes n ss m ls) : Writes n (.blank :: ss) m (Line.blank :: ls)
  | opening {n m : Nat} {ps : List (Piece ClassUse TypeUse)}
      {ss : List (Stroke ClassUse TypeUse)} {ls : List Line} (h : Writes (n + 1) ss m ls) :
      Writes n (.opening ps :: ss) m (⟨n, displayAll ps⟩ :: ls)
  | closing {n m : Nat} {ps : List (Piece ClassUse TypeUse)}
      {ss : List (Stroke ClassUse TypeUse)} {ls : List Line} (h : Writes n ss m ls) :
      Writes (n + 1) (.closing ps :: ss) m (⟨n, displayAll ps⟩ :: ls)
  | indent {n m : Nat} {ss : List (Stroke ClassUse TypeUse)} {ls : List Line}
      (h : Writes (n + 1) ss m ls) : Writes n (.indent :: ss) m ls

namespace Writes

variable {n m k : Nat} {ss ts : List (Stroke ClassUse TypeUse)} {ls ls' : List Line}

theorem append (h : Writes n ss m ls) (h' : Writes m ts k ls') :
    Writes n (ss ++ ts) k (ls ++ ls') := by
  induction h with
  | nil => exact h'
  | line _ ih => exact .line (ih h')
  | blank _ ih => exact .blank (ih h')
  | opening _ ih => exact .opening (ih h')
  | closing _ ih => exact .closing (ih h')
  | indent _ ih => exact .indent (ih h')

theorem lines_eq (h : Writes n ss m ls) (heq : ls = ls') : Writes n ss m ls' :=
  heq ▸ h

/-- The strokes write these lines. -/
theorem writeAll_eq (h : Writes n ss m ls) :
    depthAfter n ss = m ∧ (writeAll n ss).map Row.line = ls := by
  induction h with
  | nil => exact ⟨rfl, rfl⟩
  | line _ ih | opening _ ih | closing _ ih | blank _ ih => exact ⟨ih.1, congrArg _ ih.2⟩
  | indent _ ih => exact ih

/-- Before a level is closed, the depth is not zero. -/
theorem depthAfter_pos (h : Writes n ss m ls) {before after : List (Stroke ClassUse TypeUse)}
    {ps : List (Piece ClassUse TypeUse)} (hss : ss = before ++ .closing ps :: after) :
    0 < depthAfter n before := by
  induction h generalizing before with
  | nil => simp at hss
  | line _ ih | blank _ ih | opening _ ih | indent _ ih =>
    cases before with
    | nil => simp at hss
    | cons s before =>
      obtain ⟨rfl, hrest⟩ := List.cons.inj hss
      have hpos := ih hrest
      exact hpos
  | closing _ ih =>
    cases before with
    | nil => exact Nat.succ_pos _
    | cons s before =>
      obtain ⟨rfl, hrest⟩ := List.cons.inj hss
      have hpos := ih hrest
      exact hpos

end Writes

/-! ### The lines of a file -/

section Lines

open Writes

theorem writes_entryStrokes (n : Nat) (entries : List (List (Piece ClassUse TypeUse))) :
    Writes n (entryStrokes entries) n (entryLines n (entries.map displayAll)) := by
  induction entries with
  | nil => exact .nil
  | cons entry entries ih =>
    cases entries with
    | nil => exact .line .nil
    | cons next entries =>
      refine (Writes.line ih).lines_eq ?_
      simp [entryLines]

/-- A list leaves the depth as it is. -/
theorem writes_listStrokes (n : Nat) (head : List (Piece ClassUse TypeUse))
    (entries : List (List (Piece ClassUse TypeUse))) (tail : List (Piece ClassUse TypeUse)) :
    Writes n (listStrokes head entries tail) n
      (listLines n (displayAll head) (entries.map displayAll) (displayAll tail)) := by
  rw [listStrokes, listLines, List.isEmpty_map]
  by_cases h : entries.isEmpty = true
  · have hline : displayAll (head ++ .code "()" [.opening .round, .closing .round] :: tail) =
        displayAll head ++ "()" ++ displayAll tail := by simp [String.append_assoc]
    rw [if_pos h, if_pos h, ← hline]
    exact .line .nil
  · have hfirst : displayAll (head ++ [.code "(" [.opening .round]]) = displayAll head ++ "(" := by
      simp
    have hlast : displayAll (.code ")" [.closing .round] :: tail) = ")" ++ displayAll tail := by
      simp
    rw [if_neg h, if_neg h, ← hfirst, ← hlast]
    exact .opening ((writes_entryStrokes (n + 1) entries).append (.closing .nil))

/-- Lines one after the other, at one depth. -/
theorem writes_lines {α : Type} (n : Nat) (f : α → List (Piece ClassUse TypeUse)) (as : List α) :
    Writes n (as.map fun a => .line (f a)) n (as.map fun a => ⟨n, displayAll (f a)⟩) := by
  induction as with
  | nil => exact .nil
  | cons a as ih => exact .line ih

theorem Factory.writes_successStrokes (f : Factory ClassUse TypeUse) (n : Nat)
    (head : List (Piece ClassUse TypeUse)) :
    Writes n (f.successStrokes head) n (f.successLines n (displayAll head)) := by
  have h := writes_listStrokes n (head ++ [.reference f.either, .code ".Right(" [.opening .round],
    .reference f.constructed]) (f.arguments.map Argument.pieces)
    [.code ")" [.closing .round]]
  have harguments : (f.arguments.map Argument.pieces).map displayAll =
      f.arguments.map Argument.display := by
    simp [Function.comp_def, Argument.displayAll_pieces]
  rw [harguments] at h
  simpa [successLines, successStrokes, String.append_assoc] using h

theorem Factory.writes_outcomeStrokes (f : Factory ClassUse TypeUse) (n : Nat) :
    Writes n f.outcomeStrokes n (f.outcomeLines n) := by
  unfold outcomeStrokes outcomeLines
  cases f.failure with
  | none => exact f.writes_successStrokes n [.code "return "]
  | some b =>
    have hsuccess := f.writes_successStrokes (n + 1) []
    have hcases := writes_lines (n + 3) (FailureCase.pieces f.either b.variants) b.cases
    -- four levels are opened after the condition, and closed by the last four strokes
    refine Writes.lines_eq (.opening <| hsuccess.append <| .closing <| .indent <| .opening <|
      .opening <| hcases.append <| .closing <| .closing <| .closing .nil) ?_
    simp [displayAll_conditionsPieces, FailureCase.displayAll_pieces, String.append_assoc]

theorem Factory.writes_strokes (f : Factory ClassUse TypeUse) (n : Nat) :
    Writes n f.strokes n (f.lines n) := by
  have hhead := writes_listStrokes n
    (.code "fun " :: (ownerPieces f.receiver ++ [.name .function f.name]))
    (f.parameters.map Parameter.pieces)
    [.code ": ", .type f.result, .code " \x7b" [.opening .curly]]
  have hlocals := writes_lines (n + 1) Local.pieces f.locals
  have houtcome := f.writes_outcomeStrokes (n + 1)
  refine Writes.lines_eq (hhead.append <| .indent <| hlocals.append <| houtcome.append <|
    .closing .nil) ?_
  have hreceiver (r : Receiver ClassUse) : displayAll r.pieces = r.display := r.displayAll_pieces
  cases howner : f.receiver <;>
    simp [lines, howner, ownerPieces, hreceiver, Function.comp_def, Parameter.displayAll_pieces,
      Local.displayAll_pieces, String.append_assoc]

/-- The head of a class opens a level. -/
theorem writes_classHeadStrokes (name : ClassUse) (fields : List (List (Piece ClassUse TypeUse))) :
    Writes 0 (classHeadStrokes name fields) 1 (classHead name (fields.map displayAll)) := by
  rw [classHeadStrokes, classHead, List.isEmpty_map]
  by_cases h : fields.isEmpty = true
  · rw [if_pos h, if_pos h]
    refine Writes.lines_eq (.line <| .indent .nil) ?_
    simp [String.append_assoc]
  · rw [if_neg h, if_neg h]
    have hlist := writes_listStrokes 0 [.code "data class ", .reference name] fields
      [.code " \x7b" [.opening .curly]]
    refine Writes.lines_eq (hlist.append <| .indent .nil) ?_
    simp

theorem FailureUnion.writes_strokes (u : FailureUnion ClassUse TypeUse) :
    Writes 0 u.strokes 0 u.lines := by
  unfold strokes lines
  refine Writes.append (m := 0) ?_ ?_
  · by_cases h : u.variants.isEmpty = true
    · rw [if_pos h, if_pos h]
      refine Writes.lines_eq (.line .nil) ?_
      simp
    · rw [if_neg h, if_neg h]
      have hvariants := writes_lines 1 Variant.pieces u.variants
      refine Writes.lines_eq (.opening <| hvariants.append <| .closing .nil) ?_
      simp [Variant.displayAll_pieces, String.append_assoc]
  · cases u.required with
    | none => exact .nil
    | some required =>
      refine Writes.lines_eq (.blank <| .line .nil) ?_
      simp [String.append_assoc]

theorem writes_factoriesStrokes (n : Nat) (fs : List (Factory ClassUse TypeUse)) :
    Writes n (factoriesStrokes fs) n (factoriesLines n fs) := by
  induction fs with
  | nil => exact .nil
  | cons f fs ih =>
    cases fs with
    | nil => exact f.writes_strokes n
    | cons g fs => exact (f.writes_strokes n).append <| .blank ih

theorem DataClass.writes_strokes (d : DataClass ClassUse TypeUse) :
    Writes 0 d.strokes 0 d.lines := by
  have hhead := writes_classHeadStrokes d.name (d.fields.map Parameter.fieldPieces)
  have hfactories := writes_factoriesStrokes 2 d.factories
  refine Writes.lines_eq (hhead.append <| .opening <| hfactories.append <| .closing <|
    .closing .nil) ?_
  simp [lines, Function.comp_def, Parameter.displayAll_fieldPieces]

theorem writes_stepStrokes (params : ClassUse) (arguments : List (List (Piece ClassUse TypeUse)))
    (steps : List (BuildStep ClassUse)) (n : Nat) (head : List (Piece ClassUse TypeUse)) :
    Writes n (stepStrokes params arguments head steps) n
      (stepLines params (arguments.map displayAll) n (displayAll head) steps) := by
  induction steps generalizing n head with
  | nil =>
    have hlist := writes_listStrokes n (head ++ [.reference params]) arguments []
    refine hlist.lines_eq ?_
    simp [stepLines]
  | cons s steps ih =>
    refine Writes.lines_eq (.opening <| (ih (n + 1) []).append <| .closing .nil) ?_
    simp [stepLines, Expr.displayAll_pieces, String.append_assoc]

theorem BuildBody.writes_strokes (params : ClassUse) (n : Nat) (body : BuildBody ClassUse) :
    Writes n (body.strokes params) n (body.lines params n) := by
  cases body with
  | present wrapper =>
    refine Writes.lines_eq (.line .nil) ?_
    simp [lines, String.append_assoc]
  | chain steps arguments =>
    have hsteps := writes_stepStrokes params (arguments.map Argument.pieces) steps n
      [.code "return "]
    refine hsteps.lines_eq ?_
    simp [lines, Function.comp_def, Argument.displayAll_pieces]

theorem Builder.writes_strokes (b : Builder ClassUse TypeUse) : Writes 0 b.strokes 0 b.lines := by
  have hhead := writes_classHeadStrokes b.name (b.staged.map Parameter.fieldPieces)
  have hbody := b.body.writes_strokes b.params 2
  have honly := writes_listStrokes 2 [.code "fun only"]
    (b.staged.map fun p => p.pieces ++ .code " = " :: defaultPieces b.absent)
    [.code ": ", .reference b.name, .code " \x7b" [.opening .curly]]
  have hreturn := writes_listStrokes 3 [.code "return ", .reference b.name]
    (b.staged.map fun p => passedOnPieces p.name) []
  refine Writes.lines_eq (hhead.append <| .opening <| hbody.append <| .closing <| .blank <|
    .opening <| honly.append <| .indent <| hreturn.append <| .closing <| .closing <|
    .closing .nil) ?_
  simp [lines, Function.comp_def, Parameter.displayAll_fieldPieces, Parameter.displayAll_pieces,
    displayAll_passedOnPieces, displayAll_defaultPieces, String.append_assoc]

theorem OnlyExtension.writes_strokes (f : OnlyExtension ClassUse TypeUse) :
    Writes 0 f.strokes 0 f.lines := by
  have hhead := writes_listStrokes 0 (.code "fun " :: (f.receiver.pieces ++ [.code "only"]))
    (f.parameters.map (·.pieces f.absent))
    [.code ": ", .reference f.receiver.owner, .code " \x7b" [.opening .curly]]
  have hreturn := writes_listStrokes 1 [.code "return ", .reference f.receiver.owner]
    (f.parameters.map fun p => passedOnPieces p.name) []
  refine Writes.lines_eq (hhead.append <| .indent <| hreturn.append <| .closing .nil) ?_
  simp [lines, Function.comp_def, OnlyParameter.displayAll_pieces, Receiver.displayAll_pieces,
    displayAll_passedOnPieces, String.append_assoc]

/-- **The strokes of a file write its lines.**  They start and end at depth zero, and no level
is closed at depth zero on the way. -/
theorem Content.writes_strokes (c : Content ClassUse TypeUse) : Writes 0 c.strokes 0 c.lines := by
  cases c with
  | failureUnion u => exact u.writes_strokes
  | dataClass d => exact d.writes_strokes
  | builder b => exact b.writes_strokes
  | factory f => exact f.writes_strokes 0
  | only f => exact f.writes_strokes

end Lines

/-! ### The words of a file -/

/-- The words of a row, with its indentation and its end. -/
def Row.words (r : Row) : List Word :=
  if displayAll r.pieces = "" then [.code "\n"]
  else .code (String.ofList (List.replicate (4 * r.depth) ' ')) ::
    (r.pieces.flatMap Piece.words ++ [.code "\n"])

theorem Row.displayWords_words (r : Row) : displayWords r.words = r.line.display := by
  unfold words Line.display
  by_cases h : displayAll r.pieces = ""
  · have htext : r.line.text = "" := h
    rw [if_pos h, if_pos htext]
    rfl
  · have htext : r.line.text ≠ "" := h
    rw [if_neg h, if_neg htext]
    simp [Piece.displayWords_flatMap, line, String.append_assoc]

theorem displayWords_rows (rows : List Row) :
    displayWords (rows.flatMap Row.words) = displayLines (rows.map Row.line) := by
  induction rows with
  | nil => rfl
  | cons r rows ih =>
    rw [List.flatMap_cons, displayWords_append, ih, r.displayWords_words]
    simp [displayLines]

/-- The words of the package line. -/
def packageWords (package : String) : List Word :=
  if package = "" then [] else .code "package " :: (dottedWords package ++ [.code "\n\n"])

/-- The words of the imports. -/
def importWords (imports : List String) : List Word :=
  if imports.isEmpty then []
  else imports.flatMap (fun name => .code "import " :: (dottedWords name ++ [.code "\n"])) ++
    [.code "\n"]

/-- The words of a file. -/
def File.words (f : File) : List Word :=
  .code (generatedHeader ++ "\n\n") :: (packageWords f.package ++
    (importWords f.spelled.2.lines ++ (writeAll 0 f.spelled.1.strokes).flatMap Row.words))

theorem displayWords_imports (imports : List String) :
    displayWords (imports.flatMap fun name =>
      .code "import " :: (dottedWords name ++ [.code "\n"])) =
        String.join (imports.map fun name => "import " ++ name ++ "\n") := by
  induction imports with
  | nil => rfl
  | cons name imports ih => simp [ih, String.append_assoc]

/-- A file is written as its words are. -/
theorem File.displayWords_words (f : File) : displayWords f.words = f.text := by
  have hlines := f.spelled.1.writes_strokes.writeAll_eq.2
  have hpackage : displayWords (packageWords f.package) =
      if f.package = "" then "" else "package " ++ f.package ++ "\n\n" := by
    unfold packageWords
    split
    · rfl
    · simp [String.append_assoc]
  have himports : displayWords (importWords f.spelled.2.lines) =
      if f.spelled.2.lines.isEmpty then ""
      else String.join (f.spelled.2.lines.map fun name => "import " ++ name ++ "\n") ++ "\n" := by
    unfold importWords
    split
    · rfl
    · simp [displayWords_imports]
  show _ = assemble f.package f.spelled.2.lines f.spelled.1.lines
  rw [words, displayWords_cons, displayWords_append, displayWords_append, hpackage, himports,
    displayWords_rows, hlines, assemble]
  simp [String.append_assoc]

end ModelForge.Kotlin
