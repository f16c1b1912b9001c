/-
The language of type expressions.

What a text must be made of to be read as a reference is said here without the reader: a
reference has tokens, and a text spells tokens if they stand in it in their order, with blanks
in front of them.

* `TypeRef.WellFormed` — the references that can be written at all;
* `TypeRef.tokens` — the tokens of a reference, in the order in which it is displayed;
* `Token.Spells` — a text is made of tokens: there may be blanks in front of each and at the
  end, but none in front of a dot, and there is one after a keyword;
* `spells_cons_iff` — what is left of such a text when its first token has been taken;
* `head?_skipBlank_of_spells` — the next visible character of a text tells its next token;
* `spells_display` — the displayed form of a reference spells its tokens.
-/
import Mathlib.Data.List.Basic
import ModelForge.Proofs.DottedNames
import ModelForge.TypeRef.Parser

namespace ModelForge

open Text

/-! ### Characters -/

namespace Text

/-- The numbers of the blank characters. -/
def blankNumbers : List Nat :=
  List.range' 9 5 ++ List.range' 0x2000 11 ++
    [0x20, 0x85, 0xA0, 0x1680, 0x2028, 0x2029, 0x202F, 0x205F, 0x3000]

theorem toNat_mem_blankNumbers {c : Char} (h : isBlank c = true) : c.toNat ∈ blankNumbers := by
  simp only [isBlank, Bool.or_eq_true, Bool.and_eq_true, decide_eq_true_eq, beq_iff_eq] at h
  simp only [blankNumbers, List.mem_append, List.mem_range'_1, List.mem_cons, List.not_mem_nil,
    or_false]
  generalize c.toNat = n at h ⊢
  omega

end Text

namespace TypeRef

/-- No blank character is a character of a name. -/
theorem isNameChar_of_isBlank {c : Char} (h : isBlank c = true) : isNameChar c = false := by
  have hall : ∀ n ∈ blankNumbers, isNameChar (Char.ofNat n) = false := by decide +kernel
  rw [← Char.ofNat_toNat c]
  exact hall c.toNat (toNat_mem_blankNumbers h)

theorem isBlank_of_isNameChar {c : Char} (h : isNameChar c = true) : isBlank c = false := by
  cases hblank : isBlank c with
  | false => rfl
  | true =>
    rw [isNameChar_of_isBlank hblank] at h
    cases h

/-! ### Well-formed references -/

/-- A part of a name: at least one character, and characters of names only. -/
structure IsPart (w : List Char) : Prop where
  ne_nil : w ≠ []
  isNameChar : ∀ c ∈ w, isNameChar c = true

/-- A dotted name. -/
def IsName (name : String) : Prop :=
  ∀ w ∈ segmentsOf name.toList, IsPart w

/-- The name starts with a character that a keyword may stand in front of. -/
def StartsType (t : TypeRef) : Prop :=
  t.name.toList.head?.any isTypeStart = true

mutual

/-- A reference that can be written: its name is a dotted name, and so are those in its
arguments. -/
def WellFormed : TypeRef → Prop
  | mk name arguments _ => IsName name ∧ WellFormedList arguments

/-- An argument that can be written: after a keyword, the name starts as names usually do. -/
def WellFormedArgument : TypeArgument → Prop
  | .star => True
  | .type variance ref => (variance = .invariant ∨ ref.StartsType) ∧ ref.WellFormed

/-- Arguments that can be written. -/
def WellFormedList : List TypeArgument → Prop
  | [] => True
  | a :: as => WellFormedArgument a ∧ WellFormedList as

end

end TypeRef

/-! ### Tokens -/

/-- A token of a type expression. -/
inductive Token
  /-- a part of a name -/
  | part (chars : List Char)
  /-- one of `in` and `out` -/
  | keyword (chars : List Char)
  | mark (c : Char)
deriving DecidableEq, Repr

/-- The characters of a token. -/
def Token.chars : Token → List Char
  | part cs | keyword cs => cs
  | mark c => [c]

/-- The characters of the keyword of a variance. -/
def Variance.word : Variance → List Char
  | invariant => []
  | contravariant => ['i', 'n']
  | covariant => ['o', 'u', 't']

/-- The keyword of a variance, if it has one. -/
def Variance.tokens : Variance → List Token
  | invariant => []
  | variance => [.keyword variance.word]

theorem Variance.tokens_eq {variance : Variance} (h : variance ≠ .invariant) :
    variance.tokens = [.keyword variance.word] := by
  cases variance with
  | invariant => exact absurd rfl h
  | contravariant => rfl
  | covariant => rfl

theorem Variance.isPart_word {variance : Variance} (h : variance ≠ .invariant) :
    TypeRef.IsPart variance.word := by
  cases variance with
  | invariant => exact absurd rfl h
  | contravariant => exact ⟨nofun, List.all_eq_true.1 (by decide)⟩
  | covariant => exact ⟨nofun, List.all_eq_true.1 (by decide)⟩

/-- Neither keyword is the beginning of the other. -/
theorem Variance.word_append_inj {v v' : Variance} {rest rest' : List Char} (hv : v ≠ .invariant)
    (hv' : v' ≠ .invariant) (h : v.word ++ rest = v'.word ++ rest') : v = v' ∧ rest = rest' := by
  have hword : v = v' := by
    cases v with
    | invariant => exact absurd rfl hv
    | contravariant => cases v' with
      | invariant => exact absurd rfl hv'
      | contravariant => rfl
      | covariant => cases h
    | covariant => cases v' with
      | invariant => exact absurd rfl hv'
      | contravariant => cases h
      | covariant => rfl
  subst hword
  exact ⟨rfl, List.append_cancel_left h⟩

namespace TypeRef

/-- The tokens of the further parts of a name, a dot in front of each. -/
def furtherTokens : List (List Char) → List Token
  | [] => []
  | w :: ws => .mark '.' :: .part w :: furtherTokens ws

/-- The tokens of the parts of a name. -/
def partsTokens : List (List Char) → List Token
  | [] => []
  | w :: ws => .part w :: furtherTokens ws

/-- The token of a nullable reference. -/
def nullableTokens : Bool → List Token
  | true => [.mark '?']
  | false => []

mutual

/-- The tokens of a reference. -/
def tokens : TypeRef → List Token
  | mk name arguments nullable =>
    partsTokens (segmentsOf name.toList) ++ listTokens arguments ++ nullableTokens nullable

/-- The tokens of an argument. -/
def argumentTokens : TypeArgument → List Token
  | .star => [.mark '*']
  | .type variance ref => variance.tokens ++ ref.tokens

/-- The tokens of an argument list, none if there are no arguments. -/
def listTokens : List TypeArgument → List Token
  | [] => []
  | a :: as => .mark '<' :: argumentTokens a ++ restTokens as

/-- The tokens of the rest of an argument list, and those of its end. -/
def restTokens : List TypeArgument → List Token
  | [] => [.mark '>']
  | a :: as => .mark ',' :: argumentTokens a ++ restTokens as

end

end TypeRef

namespace Token

/-- Whether the token is a keyword. -/
def isKeyword : Token → Bool
  | keyword _ => true
  | _ => false

/-- The text is made of the tokens. -/
inductive Spells : List Token → List Char → Prop
  | nil {blanks : List Char} (hblanks : ∀ c ∈ blanks, isBlank c = true) : Spells [] blanks
  | cons {tok : Token} {toks : List Token} {blanks rest : List Char}
    (hblanks : ∀ c ∈ blanks, isBlank c = true) (hdot : tok = .mark '.' → blanks = [])
    (hkeyword : tok.isKeyword = true → ∃ c cs, rest = c :: cs ∧ isBlank c = true)
    (hrest : Spells toks rest) : Spells (tok :: toks) (blanks ++ tok.chars ++ rest)

/-- The token starts with a character that is no blank. -/
def Visible (tok : Token) : Prop :=
  ∃ c cs, tok.chars = c :: cs ∧ isBlank c = false

theorem visible_mark {c : Char} (h : isBlank c = false) : (mark c).Visible :=
  ⟨c, [], rfl, h⟩

theorem visible_part {w : List Char} (h : TypeRef.IsPart w) : (part w).Visible := by
  obtain ⟨c, cs, rfl⟩ := List.exists_cons_of_ne_nil h.ne_nil
  exact ⟨c, cs, rfl, TypeRef.isBlank_of_isNameChar (h.isNameChar c List.mem_cons_self)⟩

variable {tok : Token} {toks : List Token} {cs : List Char}

theorem skipBlank_append {blanks : List Char} (h : ∀ c ∈ blanks, isBlank c = true) :
    skipBlank (blanks ++ cs) = skipBlank cs :=
  List.dropWhile_append_of_pos h

theorem skipBlank_of_visible {rest : List Char} (h : tok.Visible) :
    skipBlank (tok.chars ++ rest) = tok.chars ++ rest := by
  obtain ⟨c, ds, hchars, hc⟩ := h
  rw [hchars]
  exact List.dropWhile_cons_of_neg (by rw [hc]; exact Bool.false_ne_true)

/-- Every text is its leading blanks and what follows them. -/
theorem exists_blanks (cs : List Char) :
    ∃ blanks, (∀ c ∈ blanks, isBlank c = true) ∧ cs = blanks ++ skipBlank cs :=
  ⟨cs.takeWhile isBlank, List.all_eq_true.1 List.all_takeWhile,
    List.takeWhile_append_dropWhile.symm⟩

theorem spells_nil_iff : Spells [] cs ↔ skipBlank cs = [] := by
  constructor
  · rintro ⟨hblanks⟩
    rw [← List.append_nil cs, skipBlank_append hblanks]
    rfl
  · intro h
    obtain ⟨blanks, hblanks, heq⟩ := exists_blanks cs
    rw [heq, h, List.append_nil]
    exact .nil hblanks

/-- A text spells a first token and further ones if after its blanks comes the token, and then a
text that spells the others. -/
theorem spells_cons_iff (h : tok.Visible) :
    Spells (tok :: toks) cs ↔ ∃ rest, skipBlank cs = tok.chars ++ rest ∧
      (tok = .mark '.' → skipBlank cs = cs) ∧
      (tok.isKeyword = true → ∃ c ds, rest = c :: ds ∧ isBlank c = true) ∧ Spells toks rest := by
  constructor
  · rintro ⟨⟩
    rename_i blanks rest hblanks hdot hkeyword hrest
    have hskip : skipBlank (blanks ++ tok.chars ++ rest) = tok.chars ++ rest := by
      rw [List.append_assoc, skipBlank_append hblanks, skipBlank_of_visible h]
    refine ⟨rest, hskip, fun htok => ?_, hkeyword, hrest⟩
    rw [hskip, hdot htok]
    rfl
  · rintro ⟨rest, hskip, hdot, hkeyword, hrest⟩
    obtain ⟨blanks, hblanks, heq⟩ := exists_blanks cs
    rw [heq, hskip, ← List.append_assoc]
    refine .cons hblanks (fun htok => ?_) hkeyword hrest
    -- what has no blanks to skip has no leading blanks
    rw [hdot htok] at heq
    exact List.self_eq_append_left.1 heq

theorem spells_mark_iff {c : Char} (hc : isBlank c = false) (hdot : c ≠ '.') :
    Spells (mark c :: toks) cs ↔ ∃ rest, skipBlank cs = c :: rest ∧ Spells toks rest := by
  rw [spells_cons_iff (visible_mark hc)]
  refine exists_congr fun rest => and_congr_right fun _ => ?_
  refine ⟨fun h => h.2.2, fun h => ⟨fun htok => ?_, nofun, h⟩⟩
  cases htok
  exact absurd rfl hdot

theorem spells_dot_iff :
    Spells (mark '.' :: toks) cs ↔ ∃ rest, cs = '.' :: rest ∧ Spells toks rest := by
  rw [spells_cons_iff (visible_mark rfl)]
  refine exists_congr fun rest => ⟨?_, ?_⟩
  · rintro ⟨hskip, hdot, -, hrest⟩
    rw [← hdot rfl, hskip]
    exact ⟨rfl, hrest⟩
  · rintro ⟨rfl, hrest⟩
    have hskip : skipBlank ('.' :: rest) = '.' :: rest := skipBlank_of_visible (visible_mark rfl)
    exact ⟨hskip, fun _ => hskip, nofun, hrest⟩

theorem spells_part_iff {w : List Char} (h : TypeRef.IsPart w) :
    Spells (part w :: toks) cs ↔ ∃ rest, skipBlank cs = w ++ rest ∧ Spells toks rest := by
  rw [spells_cons_iff (visible_part h)]
  exact exists_congr fun rest => and_congr_right fun _ =>
    ⟨fun h => h.2.2, fun h => ⟨nofun, nofun, h⟩⟩

/-- The next visible character of a text is the first one of its next token. -/
theorem head?_skipBlank_of_spells (hvisible : ∀ tok ∈ toks.head?, tok.Visible)
    (h : Spells toks cs) : (skipBlank cs).head? = toks.head?.bind (·.chars.head?) := by
  cases toks with
  | nil =>
    rw [spells_nil_iff.1 h]
    rfl
  | cons tok toks =>
    have hv := hvisible tok rfl
    obtain ⟨rest, hskip, -⟩ := (spells_cons_iff hv).1 h
    obtain ⟨c, ds, hchars, -⟩ := hv
    rw [hskip, List.head?_cons, Option.bind_some, hchars]
    rfl

/-! ### Writing tokens -/

/-- A token that is no keyword may be written without blanks. -/
theorem Spells.next (tok : Token) {rest : List Char} (htok : tok.isKeyword = false)
    (h : Spells toks rest) : Spells (tok :: toks) (tok.chars ++ rest) := by
  show Spells (tok :: toks) ([] ++ tok.chars ++ rest)
  refine .cons nofun (fun _ => rfl) ?_ h
  rw [htok]
  nofun

/-- A keyword may be written without blanks in front of a blank. -/
theorem Spells.keyword (w : List Char) {rest : List Char} (h : Spells toks (' ' :: rest)) :
    Spells (.keyword w :: toks) (w ++ ' ' :: rest) :=
  show Spells (.keyword w :: toks) ([] ++ w ++ ' ' :: rest) from
    .cons nofun nofun (fun _ => ⟨' ', rest, rfl, rfl⟩) h

/-- Blanks may be written in front of everything but a dot. -/
theorem Spells.blanks {blanks : List Char} (hblanks : ∀ c ∈ blanks, isBlank c = true)
    (hdot : ∀ tok ∈ toks.head?, tok ≠ .mark '.') (h : Spells toks cs) :
    Spells toks (blanks ++ cs) := by
  have happend : ∀ {more : List Char}, (∀ c ∈ more, isBlank c = true) →
      ∀ c ∈ blanks ++ more, isBlank c = true :=
    fun hmore => List.forall_mem_append.2 ⟨hblanks, hmore⟩
  cases h with
  | nil hmore => exact .nil (happend hmore)
  | @cons tok toks _ rest hmore _ hkeyword hrest =>
    have htok : tok ≠ .mark '.' := hdot tok rfl
    rw [← List.append_assoc, ← List.append_assoc]
    exact .cons (happend hmore) (fun h => absurd h htok) hkeyword hrest

end Token

namespace TypeRef

open Token

variable {toks : List Token} {rest : List Char}

theorem spells_furtherTokens {ws : List (List Char)} (h : Spells toks rest) :
    Spells (furtherTokens ws ++ toks) (ws.flatMap ('.' :: ·) ++ rest) := by
  induction ws with
  | nil => exact h
  | cons w ws ih =>
    rw [List.flatMap_cons, List.append_assoc]
    exact (ih.next (.part w) rfl).next (.mark '.') rfl

theorem spells_partsTokens (name : List Char) (h : Spells toks rest) :
    Spells (partsTokens (segmentsOf name) ++ toks) (name ++ rest) := by
  obtain ⟨w, ws, hws⟩ := exists_segmentsOf_eq_cons name
  rw [hws, (segmentsOf_eq_cons_iff.1 hws).1, List.append_assoc]
  exact (spells_furtherTokens h).next (.part w) rfl

/-- The first token of a reference is a part of its name. -/
theorem exists_tokens_eq_cons (t : TypeRef) : ∃ w toks, t.tokens = .part w :: toks := by
  obtain ⟨name, arguments, nullable⟩ := t
  obtain ⟨w, ws, hws⟩ := exists_segmentsOf_eq_cons name.toList
  refine ⟨w, furtherTokens ws ++ listTokens arguments ++ nullableTokens nullable, ?_⟩
  rw [tokens, hws]
  rfl

/-- No reference starts with a dot. -/
theorem head?_tokens_ne_dot (t : TypeRef) (toks : List Token) :
    ∀ tok ∈ (t.tokens ++ toks).head?, tok ≠ .mark '.' := by
  obtain ⟨w, toks', htokens⟩ := exists_tokens_eq_cons t
  rw [htokens]
  rintro tok ⟨⟩
  nofun

theorem head?_argumentTokens_ne_dot (a : TypeArgument) (toks : List Token) :
    ∀ tok ∈ (argumentTokens a ++ toks).head?, tok ≠ .mark '.' := by
  cases a with
  | star =>
    rintro tok ⟨⟩
    decide
  | type variance ref =>
    rw [argumentTokens]
    cases variance with
    | invariant => exact head?_tokens_ne_dot ref toks
    | contravariant =>
      rintro tok ⟨⟩
      nofun
    | covariant =>
      rintro tok ⟨⟩
      nofun

theorem isBlank_space : ∀ c ∈ [' '], isBlank c = true :=
  List.all_eq_true.1 (by decide)

mutual

theorem spells_display : ∀ (t : TypeRef) {toks : List Token} {rest : List Char},
    Spells toks rest → Spells (t.tokens ++ toks) (t.display.toList ++ rest)
  | mk name arguments nullable, toks, rest, h => by
    have hnullable : Spells (nullableTokens nullable ++ toks)
        ((if nullable then "?" else "").toList ++ rest) := by
      cases nullable with
      | true => exact h.next (.mark '?') rfl
      | false => exact h
    rw [tokens, display, String.toList_append, String.toList_append, List.append_assoc,
      List.append_assoc, List.append_assoc, List.append_assoc]
    exact spells_partsTokens name.toList (spells_displayList arguments hnullable)

theorem spells_displayArgument : ∀ (a : TypeArgument) {toks : List Token} {rest : List Char},
    Spells toks rest → Spells (argumentTokens a ++ toks) ((displayArgument a).toList ++ rest)
  | .star, _, _, h => h.next (.mark '*') rfl
  | .type variance ref, toks, rest, h => by
    have href := spells_display ref h
    rw [argumentTokens, displayArgument, String.toList_append, List.append_assoc, List.append_assoc]
    -- a keyword is written with the blank that ends it
    have hspaced := href.blanks isBlank_space (head?_tokens_ne_dot ref toks)
    cases variance with
    | invariant => exact href
    | contravariant => exact hspaced.keyword ['i', 'n']
    | covariant => exact hspaced.keyword ['o', 'u', 't']

theorem spells_displayList : ∀ (as : List TypeArgument) {toks : List Token} {rest : List Char},
    Spells toks rest → Spells (listTokens as ++ toks) ((displayList as).toList ++ rest)
  | [], _, _, h => h
  | a :: as, toks, rest, h => by
    rw [listTokens, displayList, String.toList_append, String.toList_append]
    simp only [List.append_assoc, List.cons_append]
    exact (spells_displayArgument a (spells_displayRest as h)).next (.mark '<') rfl

theorem spells_displayRest : ∀ (as : List TypeArgument) {toks : List Token} {rest : List Char},
    Spells toks rest → Spells (restTokens as ++ toks) ((displayRest as).toList ++ rest)
  | [], _, _, h => h.next (.mark '>') rfl
  | a :: as, toks, rest, h => by
    rw [restTokens, displayRest, String.toList_append, String.toList_append]
    simp only [List.append_assoc, List.cons_append]
    have hargument := spells_displayArgument a (spells_displayRest as h)
    have hspaced := hargument.blanks isBlank_space (head?_argumentTokens_ne_dot a _)
    exact hspaced.next (.mark ',') rfl

end

end TypeRef

end ModelForge
