/-
What code is put together from.

A line of code is made of fixed text, of names, and of classes and types that are written as the
imports of the file say.  The lines are written one after the other, at a depth that a line may
change: the head of a function opens a level, its last brace closes it.  Here code is taken apart
into these again:

* `Piece` — fixed text, with the brackets in it, or a name, a class or a type;
* `Word` — fixed text or a name.  A class is the parts of its dotted name, with dots between them
  (`dottedWords`), and so are the classes in a type;
* `Expr.pieces`, `Local.pieces`, `Variant.pieces` and so on — the pieces of an expression, of a
  local, of a variant, whatever its classes and types are;
* `Stroke` — a line, an empty line, a line that opens a level, a line that closes one;
* `Content.strokes` — the strokes for what a file declares, and `Factory.strokes`,
  `DataClass.strokes` and so on for its parts.

What a line has is written as its pieces are (`Expr.displayAll_pieces` and so on), and a piece is
written as its words are (`Piece.displayWords_words`).
-/
import ModelForge.Kotlin.Printer
import ModelForge.Proofs.DottedNames

namespace ModelForge.Kotlin

/-! ### Brackets -/

/-- The brackets around lists and around blocks. -/
inductive Bracket
  | round
  | curly
deriving DecidableEq, Repr

/-- A bracket in a text. -/
inductive Mark
  | opening (b : Bracket)
  | closing (b : Bracket)
deriving DecidableEq, Repr

/-- The bracket that a character is, if it is one. -/
def markOf (c : Char) : Option Mark :=
  if c = '(' then some (.opening .round)
  else if c = ')' then some (.closing .round)
  else if c = '\x7b' then some (.opening .curly)
  else if c = '\x7d' then some (.closing .curly)
  else none

/-- The brackets of a text, in order. -/
def marksOf (text : String) : List Mark :=
  text.toList.filterMap markOf

theorem marksOf_append (s t : String) : marksOf (s ++ t) = marksOf s ++ marksOf t := by
  rw [marksOf, String.toList_append, List.filterMap_append]
  rfl

/-! ### Pieces -/

/-- What a name is the name of. -/
inductive Role
  /-- a property, as a field, a parameter, an argument or the parameter of a block -/
  | property
  /-- a local, or the parameter of a block that no property is called by -/
  | held
  | variant
  | function
  | companion
  /-- a part of a dotted name: of a package, an import or a class -/
  | segment
deriving DecidableEq, Repr

/-- How a name is written: names of properties are escaped. -/
def Role.write (role : Role) (name : String) : String :=
  match role with
  | property => identifier name
  | _ => name

/-- A piece of code. The brackets of a fixed text are kept with it. -/
inductive Piece (C T : Type)
  | code (text : String) (marks : List Mark := []) (h : marksOf text = marks := by decide)
  | name (role : Role) (name : String)
  | reference (c : C)
  | type (t : T)

namespace Piece

variable {C T : Type}

/-- The brackets of the fixed text. -/
def marks : Piece C T → List Mark
  | code _ marks _ => marks
  | _ => []

/-- The written form of a piece. -/
def display : Piece ClassUse TypeUse → String
  | code text _ _ => text
  | name role n => role.write n
  | reference c => c.display
  | type t => t.display

/-- The written form of several pieces. -/
def displayAll (ps : List (Piece ClassUse TypeUse)) : String :=
  String.join (ps.map display)

@[simp] theorem displayAll_nil : displayAll [] = "" := rfl

@[simp] theorem displayAll_cons (p : Piece ClassUse TypeUse) (ps : List (Piece ClassUse TypeUse)) :
    displayAll (p :: ps) = p.display ++ displayAll ps := by
  rw [displayAll, List.map_cons, String.join_cons]
  rfl

@[simp] theorem displayAll_append (ps qs : List (Piece ClassUse TypeUse)) :
    displayAll (ps ++ qs) = displayAll ps ++ displayAll qs := by
  rw [displayAll, List.map_append, String.join_append]
  rfl

@[simp] theorem display_code (text : String) (marks : List Mark) (h : marksOf text = marks) :
    (code text marks h : Piece ClassUse TypeUse).display = text := rfl

@[simp] theorem display_property (n : String) :
    (name .property n : Piece ClassUse TypeUse).display = identifier n := rfl

@[simp] theorem display_held (n : String) :
    (name .held n : Piece ClassUse TypeUse).display = n := rfl

@[simp] theorem display_variant (n : String) :
    (name .variant n : Piece ClassUse TypeUse).display = n := rfl

@[simp] theorem display_function (n : String) :
    (name .function n : Piece ClassUse TypeUse).display = n := rfl

@[simp] theorem display_companion (n : String) :
    (name .companion n : Piece ClassUse TypeUse).display = n := rfl

@[simp] theorem display_reference (c : ClassUse) :
    (reference c : Piece ClassUse TypeUse).display = c.display := rfl

@[simp] theorem display_type (t : TypeUse) :
    (type t : Piece ClassUse TypeUse).display = t.display := rfl

end Piece

open Piece (displayAll)

/-! ### Words -/

/-- Fixed text, or a name. -/
inductive Word
  | code (text : String)
  | name (role : Role) (name : String)
deriving DecidableEq, Repr

/-- The written form of a word. -/
def Word.display : Word → String
  | code text => text
  | name role n => role.write n

/-- The written form of several words. -/
def displayWords (ws : List Word) : String :=
  String.join (ws.map Word.display)

@[simp] theorem displayWords_nil : displayWords [] = "" := rfl

@[simp] theorem displayWords_cons (w : Word) (ws : List Word) :
    displayWords (w :: ws) = w.display ++ displayWords ws := by
  rw [displayWords, List.map_cons, String.join_cons]
  rfl

@[simp] theorem displayWords_append (ws vs : List Word) :
    displayWords (ws ++ vs) = displayWords ws ++ displayWords vs := by
  rw [displayWords, List.map_append, String.join_append]
  rfl

@[simp] theorem display_code (text : String) : (Word.code text).display = text := rfl

@[simp] theorem display_segment (n : String) : (Word.name .segment n).display = n := rfl

/-- The words of the parts of a dotted name. -/
def segmentWords : List String → List Word
  | [] => []
  | [n] => [.name .segment n]
  | n :: ns => .name .segment n :: .code "." :: segmentWords ns

/-- The words of a dotted name. -/
def dottedWords (name : String) : List Word :=
  segmentWords (dotted name)

theorem displayWords_segmentWords (ns : List String) :
    displayWords (segmentWords ns) = String.intercalate "." ns := by
  induction ns with
  | nil => rfl
  | cons n ns ih =>
    cases ns with
    | nil => simp [segmentWords]
    | cons m ns => simp [segmentWords, ih, String.intercalate_cons_cons, String.append_assoc]

/-- A dotted name is written as its parts are. -/
@[simp] theorem displayWords_dottedWords (name : String) :
    displayWords (dottedWords name) = name := by
  rw [dottedWords, displayWords_segmentWords, intercalate_dotted]

theorem mem_segmentWords {ns : List String} {role : Role} {n : String}
    (h : .name role n ∈ segmentWords ns) : role = .segment ∧ n ∈ ns := by
  induction ns with
  | nil => cases h
  | cons m ns ih =>
    cases ns with
    | nil => simpa [segmentWords] using h
    | cons k ns =>
      simp only [segmentWords, List.mem_cons, Word.name.injEq, reduceCtorEq, false_or] at h
      rcases h with ⟨rfl, rfl⟩ | h
      · exact ⟨rfl, List.mem_cons_self⟩
      · obtain ⟨hrole, hmem⟩ := ih h
        exact ⟨hrole, List.mem_cons_of_mem _ hmem⟩

/-- The names in a dotted name are its parts. -/
theorem mem_dottedWords {name : String} {role : Role} {n : String}
    (h : .name role n ∈ dottedWords name) : role = .segment ∧ n ∈ dotted name :=
  mem_segmentWords h

namespace TypeUse

mutual

/-- The words of a type. -/
def words : TypeUse → List Word
  | mk use arguments nullable =>
    dottedWords use.display ++ (wordsOfList arguments ++ if nullable then [.code "?"] else [])

/-- The words of an argument. -/
def wordsOf : Option TypeUse → List Word
  | none => [.code "*"]
  | some t => words t

/-- The words of an argument list. -/
def wordsOfList : List (Option TypeUse) → List Word
  | [] => []
  | a :: as => .code "<" :: (wordsOf a ++ wordsOfRest as)

/-- The words of the rest of an argument list. -/
def wordsOfRest : List (Option TypeUse) → List Word
  | [] => [.code ">"]
  | a :: as => .code ", " :: (wordsOf a ++ wordsOfRest as)

end

mutual

theorem displayWords_words : ∀ t : TypeUse, displayWords t.words = t.display
  | mk use arguments nullable => by
    cases nullable <;> simp [words, display, displayWords_wordsOfList arguments,
      String.append_assoc]

theorem displayWords_wordsOf : ∀ a : Option TypeUse,
    displayWords (wordsOf a) = displayArgument a
  | none => rfl
  | some t => displayWords_words t

theorem displayWords_wordsOfList : ∀ as : List (Option TypeUse),
    displayWords (wordsOfList as) = displayList as
  | [] => rfl
  | a :: as => by
    simp [wordsOfList, displayList, displayWords_wordsOf a, displayWords_wordsOfRest as,
      String.append_assoc]

theorem displayWords_wordsOfRest : ∀ as : List (Option TypeUse),
    displayWords (wordsOfRest as) = displayRest as
  | [] => rfl
  | a :: as => by
    simp [wordsOfRest, displayRest, displayWords_wordsOf a, displayWords_wordsOfRest as,
      String.append_assoc]

end

end TypeUse

/-- The words of a piece. -/
def Piece.words : Piece ClassUse TypeUse → List Word
  | code text _ _ => [.code text]
  | name role n => [.name role n]
  | reference c => dottedWords c.display
  | type t => t.words

/-- A piece is written as its words are. -/
theorem Piece.displayWords_words (p : Piece ClassUse TypeUse) :
    displayWords p.words = p.display := by
  cases p with
  | code text marks h => simp [words]
  | name role n => simp [words, Word.display, display]
  | reference c => simp [words]
  | type t => exact t.displayWords_words

/-- Pieces are written as their words are. -/
theorem Piece.displayWords_flatMap (ps : List (Piece ClassUse TypeUse)) :
    displayWords (ps.flatMap words) = displayAll ps := by
  induction ps with
  | nil => rfl
  | cons p ps ih => simp [ih, displayWords_words]

/-! ### Expressions and entries -/

section Pieces

variable {C T : Type}

/-- A block with its braces. -/
def blockPieces (ps : List (Piece C T)) : List (Piece C T) :=
  .code "\x7b " [.opening .curly] :: (ps ++ [.code " \x7d" [.closing .curly]])

/-- The dot of a call. -/
def dotPiece (safe : Bool) : Piece C T :=
  if safe then .code "?." else .code "."

/-- The name of a block's parameter, with the arrow after it. -/
def blockHeadPieces : Option String → List (Piece C T)
  | none => []
  | some name => [.name .held name, .code " -> "]

/-- The pieces of an expression. -/
def Expr.pieces : Expr C → List (Piece C T)
  | parameter name => [.name .property name]
  | held name => [.name .held name]
  | it => [.code "it"]
  | null => [.code "null"]
  | object c => [.reference c]
  | wrap c inner =>
    .reference c :: .code "(" [.opening .round] :: (inner.pieces ++
      [.code ")" [.closing .round]])
  | right either inner =>
    .reference either :: .code ".Right(" [.opening .round] :: (inner.pieces ++
      [.code ")" [.closing .round]])
  | make wrapper nullable raw =>
    .reference wrapper ::
      (if nullable then .code ".ofNullable(" [.opening .round]
        else .code ".of(" [.opening .round]) :: (raw.pieces ++
      [.code ")" [.closing .round]])
  | letIt receiver block => receiver.pieces ++ .code "?.let " :: blockPieces block.pieces
  | map receiver safe name block =>
    receiver.pieces ++ dotPiece safe :: .code "map " ::
      blockPieces (blockHeadPieces name ++ block.pieces)
  | fold receiver safe absent present =>
    receiver.pieces ++ dotPiece safe :: .code "fold(" [.opening .round] ::
      (blockPieces absent.pieces ++ .code ") " [.closing .round] :: blockPieces present.pieces)
  | validate receiver safe =>
    receiver.pieces ++ [dotPiece safe, .code "validate()" [.opening .round, .closing .round]]
  | flatMap receiver block => receiver.pieces ++ .code ".flatMap " :: blockPieces block.pieces
  | build receiver safe =>
    receiver.pieces ++ [dotPiece safe, .code "build()" [.opening .round, .closing .round]]
  | content receiver => receiver.pieces ++ [.code ".value"]
  | orElse value fallback => value.pieces ++ .code " ?: " :: fallback.pieces

/-- The pieces of a parameter. -/
def Parameter.pieces (p : Parameter T) : List (Piece C T) :=
  [.name .property p.name, .code ": ", .type p.type]

/-- The pieces of a field. -/
def Parameter.fieldPieces (p : Parameter T) : List (Piece C T) :=
  .code "val " :: p.pieces

/-- The pieces of an argument. -/
def Argument.pieces (a : Argument C) : List (Piece C T) :=
  .name .property a.name :: .code " = " :: a.value.pieces

/-- A parameter or field passed on under its own name. -/
def passedOnPieces (name : String) : List (Piece C T) :=
  [.name .property name, .code " = ", .name .property name]

/-- The pieces of a local. -/
def Local.pieces (l : Local C T) : List (Piece C T) :=
  match l.type with
  | some type =>
    .code "val " :: .name .held l.name :: .code ": " :: .type type :: .code " = " :: l.value.pieces
  | none => .code "val " :: .name .held l.name :: .code " = " :: l.value.pieces

/-- The companion that a function extends, with a dot after it. -/
def Receiver.pieces (r : Receiver C) : List (Piece C T) :=
  [.reference r.owner, .code ".", .name .companion r.companion, .code "."]

/-- The class of a side. -/
def Side.piece : Side → Piece C T
  | left => .code ".Left"
  | right => .code ".Right"

/-- The pieces of a condition. -/
def Condition.pieces (either : C) (c : Condition C) : List (Piece C T) :=
  c.result.pieces ++ [.code " is ", .reference either, c.side.piece]

/-- The pieces of several conditions that all have to hold. -/
def conditionsPieces (either : C) : List (Condition C) → List (Piece C T)
  | [] => []
  | [c] => c.pieces either
  | c :: cs => c.pieces either ++ .code " && " :: conditionsPieces either cs

/-- The pieces of the line that adds a failure. -/
def FailureCase.pieces (either variants : C) (c : FailureCase C) : List (Piece C T) :=
  .code "if (" [.opening .round] :: (c.condition.pieces either ++
    .code ") add(" [.closing .round, .opening .round] ::
    .reference variants :: .code "." :: .name .variant c.variant ::
    .code "(" [.opening .round] :: (c.value.pieces ++
      [.code "))" [.closing .round, .closing .round]]))

/-- The pieces of a variant. -/
def Variant.pieces (v : Variant C T) : List (Piece C T) :=
  [.code "data class ", .name .variant v.name, .code "(val parent: " [.opening .round],
    .type v.payload, .code ") : " [.closing .round], .reference v.parent]

/-- The default of a staged field. -/
def defaultPieces : Option C → List (Piece C T)
  | some c => [.reference c]
  | none => []

/-- The pieces of an extension's parameter. -/
def OnlyParameter.pieces (absent : C) (p : OnlyParameter T) : List (Piece C T) :=
  .name .property p.name :: .code ": " :: .type p.type ::
    (if p.optional then [.code " = ", .reference absent] else [])

end Pieces

/-! ### Strokes -/

/-- One stroke of the writing of lines. -/
inductive Stroke (C T : Type)
  | line (ps : List (Piece C T))
  | blank
  /-- a line, after which a level is opened -/
  | opening (ps : List (Piece C T))
  /-- a level is closed, and then there is a line -/
  | closing (ps : List (Piece C T))
  /-- a level is opened -/
  | indent

/-- The pieces of a stroke's line. -/
def Stroke.pieces {C T : Type} : Stroke C T → List (Piece C T)
  | line ps | opening ps | closing ps => ps
  | blank | indent => []

section Strokes

variable {C T : Type}

/-- The entries of a list, with commas between them. -/
def entryStrokes : List (List (Piece C T)) → List (Stroke C T)
  | [] => []
  | [entry] => [.line entry]
  | entry :: entries => .line (entry ++ [.code ","]) :: entryStrokes entries

/-- A list in parentheses between a head and a tail, on one line if it is empty. -/
def listStrokes (head : List (Piece C T)) (entries : List (List (Piece C T)))
    (tail : List (Piece C T)) : List (Stroke C T) :=
  if entries.isEmpty then
    [.line (head ++ .code "()" [.opening .round, .closing .round] :: tail)]
  else
    .opening (head ++ [.code "(" [.opening .round]]) :: (entryStrokes entries ++
      [.closing (.code ")" [.closing .round] :: tail)])

/-- The last line of a block. -/
def closeStroke : Stroke C T :=
  .closing [.code "\x7d" [.closing .curly]]

namespace Factory

/-- The construction of the class as a success. -/
def successStrokes (f : Factory C T) (head : List (Piece C T)) : List (Stroke C T) :=
  listStrokes (head ++ [.reference f.either, .code ".Right(" [.opening .round],
    .reference f.constructed]) (f.arguments.map Argument.pieces)
    [.code ")" [.closing .round]]

/-- What comes after the locals. -/
def outcomeStrokes (f : Factory C T) : List (Stroke C T) :=
  match f.failure with
  | none => f.successStrokes [.code "return "]
  | some b =>
    .opening (.code "return if (" [.opening .round] :: (conditionsPieces f.either b.conditions ++
      [.code ") \x7b" [.closing .round, .opening .curly]])) ::
    (f.successStrokes [] ++
    .closing [.code "\x7d else \x7b" [.closing .curly, .opening .curly]] :: .indent ::
    .opening [.reference f.either, .code ".Left(" [.opening .round]] ::
    .opening [.code "buildList<", .type b.union, .code "> \x7b" [.opening .curly]] ::
    (b.cases.map (fun c => .line (c.pieces f.either b.variants)) ++
    [.closing [.code "\x7d.toNonEmptyListOrNull()!!"
        [.closing .curly, .opening .round, .closing .round]],
      .closing [.code ")" [.closing .round]], closeStroke]))

/-- What comes before the name of a factory. -/
def ownerPieces : Option (Receiver C) → List (Piece C T)
  | some r => r.pieces
  | none => []

/-- The strokes of a factory. -/
def strokes (f : Factory C T) : List (Stroke C T) :=
  listStrokes (.code "fun " :: (ownerPieces f.receiver ++ [.name .function f.name]))
      (f.parameters.map Parameter.pieces)
      [.code ": ", .type f.result, .code " \x7b" [.opening .curly]] ++
    .indent :: (f.locals.map (fun l => .line l.pieces) ++ (f.outcomeStrokes ++ [closeStroke]))

end Factory

/-- The first lines of a class, after which a level is open. -/
def classHeadStrokes (name : C) (fields : List (List (Piece C T))) : List (Stroke C T) :=
  (if fields.isEmpty then
    [.line [.code "class ", .reference name,
      .code "() \x7b" [.opening .round, .closing .round, .opening .curly]]]
  else listStrokes [.code "data class ", .reference name] fields
    [.code " \x7b" [.opening .curly]]) ++ [.indent]

/-- The strokes of a union. -/
def FailureUnion.strokes (u : FailureUnion C T) : List (Stroke C T) :=
  (if u.variants.isEmpty then [.line [.code "sealed interface ", .reference u.name]]
  else
    .opening [.code "sealed interface ", .reference u.name, .code " \x7b" [.opening .curly]] ::
      (u.variants.map (fun v => .line v.pieces) ++ [closeStroke])) ++
  match u.required with
  | some required =>
    [.blank, .line [.code "sealed interface ", .reference required, .code " : ",
      .reference u.name]]
  | none => []

/-- Several factories, with empty lines between them. -/
def factoriesStrokes : List (Factory C T) → List (Stroke C T)
  | [] => []
  | [f] => f.strokes
  | f :: fs => f.strokes ++ .blank :: factoriesStrokes fs

/-- The first line of a companion. -/
def companionStroke : Stroke C T :=
  .opening [.code "companion object \x7b" [.opening .curly]]

/-- The strokes of a data class. -/
def DataClass.strokes (d : DataClass C T) : List (Stroke C T) :=
  classHeadStrokes d.name (d.fields.map Parameter.fieldPieces) ++
    companionStroke :: (factoriesStrokes d.factories ++ [closeStroke, closeStroke])

/-- The name of a combinator. -/
def Combinator.piece : Combinator → Piece C T
  | map => .code "map"
  | flatMap => .code "flatMap"

/-- The steps of a builder, each inside of the one before. -/
def stepStrokes (params : C) (arguments : List (List (Piece C T))) (head : List (Piece C T)) :
    List (BuildStep C) → List (Stroke C T)
  | [] => listStrokes (head ++ [.reference params]) arguments []
  | s :: steps =>
    .opening (head ++ (s.source.pieces ++ [.code ".", s.combinator.piece,
      .code " \x7b " [.opening .curly], .name .property s.name, .code " ->"])) ::
    (stepStrokes params arguments [] steps ++ [closeStroke])

/-- A builder's function after its head. -/
def BuildBody.strokes (params : C) : BuildBody C → List (Stroke C T)
  | present wrapper =>
    [.line [.code "return ", .reference wrapper, .code "(" [.opening .round], .reference params,
      .code "())" [.opening .round, .closing .round, .closing .round]]]
  | chain steps arguments =>
    stepStrokes params (arguments.map Argument.pieces) [.code "return "] steps

/-- The strokes of a builder. -/
def Builder.strokes (b : Builder C T) : List (Stroke C T) :=
  classHeadStrokes b.name (b.staged.map Parameter.fieldPieces) ++
    .opening [.code "fun build(): " [.opening .round, .closing .round], .type b.result,
      .code " \x7b" [.opening .curly]] ::
    (b.body.strokes b.params ++ closeStroke :: .blank :: companionStroke ::
    (listStrokes [.code "fun only"]
      (b.staged.map fun p => p.pieces ++ .code " = " :: defaultPieces b.absent)
      [.code ": ", .reference b.name, .code " \x7b" [.opening .curly]] ++
    .indent :: (listStrokes [.code "return ", .reference b.name]
      (b.staged.map fun p => passedOnPieces p.name) [] ++
    [closeStroke, closeStroke, closeStroke])))

/-- The strokes of an extension that constructs a class. -/
def OnlyExtension.strokes (f : OnlyExtension C T) : List (Stroke C T) :=
  listStrokes (.code "fun " :: (f.receiver.pieces ++ [.code "only"]))
      (f.parameters.map (·.pieces f.absent))
      [.code ": ", .reference f.receiver.owner, .code " \x7b" [.opening .curly]] ++
    .indent :: (listStrokes [.code "return ", .reference f.receiver.owner]
      (f.parameters.map fun p => passedOnPieces p.name) [] ++ [closeStroke])

/-- The strokes of what a file declares. -/
def Content.strokes : Content C T → List (Stroke C T)
  | failureUnion u => u.strokes
  | dataClass d => d.strokes
  | builder b => b.strokes
  | factory f => f.strokes
  | only f => f.strokes

end Strokes

/-! ### Pieces as they are written -/

section Display

theorem display_dotPiece (safe : Bool) :
    (dotPiece safe : Piece ClassUse TypeUse).display = dot safe := by
  cases safe <;> rfl

theorem displayAll_blockPieces (ps : List (Piece ClassUse TypeUse)) :
    displayAll (blockPieces ps) = braced (displayAll ps) := by
  simp [blockPieces, braced, String.append_assoc]

theorem displayAll_blockHeadPieces (name : Option String) :
    displayAll (blockHeadPieces name) = blockHead name := by
  cases name with
  | none => rfl
  | some name => simp [blockHeadPieces, blockHead]

theorem Expr.displayAll_pieces (e : Expr ClassUse) : displayAll e.pieces = e.display := by
  induction e with
  | parameter | held | it | null | object => simp [pieces, display]
  | wrap _ _ ih | right _ _ ih | content _ ih => simp [pieces, display, ih, String.append_assoc]
  | make _ nullable _ ih =>
    cases nullable <;> simp [pieces, display, ih, String.append_assoc]
  | letIt _ _ ihreceiver ihblock | flatMap _ _ ihreceiver ihblock =>
    simp [pieces, display, ihreceiver, ihblock, displayAll_blockPieces, String.append_assoc]
  | map _ _ _ _ ihreceiver ihblock =>
    simp [pieces, display, ihreceiver, ihblock, displayAll_blockPieces, display_dotPiece,
      displayAll_blockHeadPieces, String.append_assoc]
  | fold _ _ _ _ ihreceiver ihabsent ihpresent =>
    simp [pieces, display, ihreceiver, ihabsent, ihpresent, displayAll_blockPieces,
      display_dotPiece, String.append_assoc]
  | validate _ _ ih | build _ _ ih =>
    simp [pieces, display, ih, display_dotPiece, String.append_assoc]
  | orElse _ _ ihvalue ihfallback =>
    simp [pieces, display, ihvalue, ihfallback, String.append_assoc]

theorem Parameter.displayAll_pieces (p : Parameter TypeUse) :
    displayAll p.pieces = p.display := by
  simp [pieces, display, String.append_assoc]

theorem Parameter.displayAll_fieldPieces (p : Parameter TypeUse) :
    displayAll p.fieldPieces = p.displayField := by
  simp [fieldPieces, displayField, displayAll_pieces]

theorem Argument.displayAll_pieces (a : Argument ClassUse) : displayAll a.pieces = a.display := by
  simp [pieces, display, Expr.displayAll_pieces, String.append_assoc]

theorem displayAll_passedOnPieces (name : String) :
    displayAll (passedOnPieces name) = passedOn name := by
  simp [passedOnPieces, passedOn, String.append_assoc]

theorem Local.displayAll_pieces (l : Local ClassUse TypeUse) :
    displayAll l.pieces = l.display := by
  unfold pieces display
  cases l.type <;> simp [Expr.displayAll_pieces, String.append_assoc]

theorem Receiver.displayAll_pieces (r : Receiver ClassUse) : displayAll r.pieces = r.display := by
  simp [pieces, display, String.append_assoc]

@[simp] theorem Side.display_piece (side : Side) :
    (side.piece : Piece ClassUse TypeUse).display = side.display := by
  cases side <;> rfl

@[simp] theorem Combinator.display_piece (combinator : Combinator) :
    (combinator.piece : Piece ClassUse TypeUse).display = combinator.display := by
  cases combinator <;> rfl

theorem Condition.displayAll_pieces (either : ClassUse) (c : Condition ClassUse) :
    displayAll (c.pieces either) = c.display either := by
  simp [pieces, display, Expr.displayAll_pieces, String.append_assoc]

theorem displayAll_conditionsPieces (either : ClassUse) (cs : List (Condition ClassUse)) :
    displayAll (conditionsPieces either cs) =
      String.intercalate " && " (cs.map (·.display either)) := by
  induction cs with
  | nil => rfl
  | cons c cs ih =>
    cases cs with
    | nil => simp [conditionsPieces, Condition.displayAll_pieces]
    | cons d cs =>
      rw [List.map_cons] at ih
      simp [conditionsPieces, Condition.displayAll_pieces, String.intercalate_cons_cons, ih,
        String.append_assoc]

theorem FailureCase.displayAll_pieces (either variants : ClassUse) (c : FailureCase ClassUse) :
    displayAll (c.pieces either variants) = c.display either variants := by
  unfold display
  simp [pieces, Condition.displayAll_pieces, Expr.displayAll_pieces, String.append_assoc]

theorem Variant.displayAll_pieces (v : Variant ClassUse TypeUse) :
    displayAll v.pieces = v.display := by
  unfold display
  simp [pieces, String.append_assoc]

theorem displayAll_defaultPieces (absent : Option ClassUse) :
    displayAll (defaultPieces absent) = defaultText absent := by
  cases absent <;> simp [defaultPieces, defaultText]

theorem OnlyParameter.displayAll_pieces (absent : ClassUse) (p : OnlyParameter TypeUse) :
    displayAll (p.pieces absent) = p.display absent := by
  unfold pieces display
  cases p.optional <;> simp [String.append_assoc]

end Display

end ModelForge.Kotlin
