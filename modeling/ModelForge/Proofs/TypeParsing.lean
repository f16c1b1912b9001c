/-
The reader of type expressions reads exactly their language.

* `TypeRef.Reads` — a reading step gives this value and leaves this rest;
* `reads_readType_iff` and its like — what each reader does, in terms of the readers it calls;
* `Spans` — the text is these tokens followed by the rest;
* `sound_readType` — what is read is well formed, and its tokens are what has been taken;
* `complete_readType` — a text that spells the tokens of a well-formed reference, and then
  something that cannot belong to it, is read as the reference.

The statement about whole texts is `TypeRef.parse_eq_ok_iff`.
-/
import ModelForge.Proofs.TypeTokens

namespace ModelForge

open Text

namespace TypeRef

open Token

/-! ### Reading steps -/

/-- The step gives the value and leaves the rest. -/
def Reads {α : Type} {p : α × List Char → Prop} (s : Except Fault { r // p r }) (a : α)
    (rest : List Char) : Prop :=
  ∃ h, s = .ok ⟨(a, rest), h⟩

section

variable {α β : Type} {p : α × List Char → Prop} {q : β × List Char → Prop}

theorem reads_pure_iff {a b : α} {rest rest' : List Char} {h : p (a, rest)} :
    Reads (pure ⟨(a, rest), h⟩ : Except Fault { r // p r }) b rest' ↔ a = b ∧ rest = rest' := by
  constructor
  · rintro ⟨_, heq⟩
    cases heq
    exact ⟨rfl, rfl⟩
  · rintro ⟨rfl, rfl⟩
    exact ⟨h, rfl⟩

theorem reads_throw {b : α} {rest : List Char} {fault : Fault} :
    ¬ Reads (throw fault : Except Fault { r // p r }) b rest :=
  nofun

theorem reads_bind_iff {s : Except Fault { r // p r }}
    {f : { r // p r } → Except Fault { r // q r }} {b : β} {rest : List Char} :
    Reads (s >>= f) b rest ↔
      ∃ a mid, ∃ h : p (a, mid), Reads s a mid ∧ Reads (f ⟨(a, mid), h⟩) b rest := by
  cases s with
  | error fault =>
    constructor
    · rintro ⟨_, heq⟩
      cases heq
    · rintro ⟨_, _, _, ⟨_, heq⟩, _⟩
      cases heq
  | ok r =>
    obtain ⟨⟨a, mid⟩, h⟩ := r
    constructor
    · intro hf
      exact ⟨a, mid, h, ⟨h, rfl⟩, hf⟩
    · rintro ⟨a', mid', h', ⟨_, heq⟩, hf⟩
      cases heq
      exact hf

end

/-! ### Words and marks -/

/-- The longest beginning of a text of the characters with a property, and what follows. -/
theorem takeWhile_dropWhile_iff {p : Char → Bool} {cs w rest : List Char} :
    (cs.takeWhile p = w ∧ cs.dropWhile p = rest) ↔
      cs = w ++ rest ∧ (∀ c ∈ w, p c = true) ∧ ∀ c ∈ rest.head?, p c = false := by
  constructor
  · rintro ⟨rfl, rfl⟩
    refine ⟨List.takeWhile_append_dropWhile.symm, List.all_eq_true.1 List.all_takeWhile, ?_⟩
    intro c hc
    have hnot := List.head?_dropWhile_not p cs
    rw [Option.mem_def.1 hc] at hnot
    exact hnot
  · rintro ⟨rfl, hw, hrest⟩
    rw [List.takeWhile_append_of_pos hw, List.dropWhile_append_of_pos hw]
    cases rest with
    | nil => exact ⟨List.append_nil w, rfl⟩
    | cons c rest =>
      have hc : ¬ p c = true := by
        rw [hrest c rfl]
        exact Bool.false_ne_true
      rw [List.takeWhile_cons_of_neg hc, List.dropWhile_cons_of_neg hc, List.append_nil]
      exact ⟨rfl, rfl⟩

theorem reads_readWord_iff {cs w rest : List Char} :
    Reads (readWord cs) w rest ↔
      IsPart w ∧ skipBlank cs = w ++ rest ∧ ∀ c ∈ rest.head?, isNameChar c = false := by
  unfold readWord
  constructor
  · rintro ⟨h, heq⟩
    dsimp only at heq
    split at heq
    · cases heq
    · rename_i hne
      cases heq
      obtain ⟨hskip, hw, hrest⟩ := takeWhile_dropWhile_iff.1
        ⟨rfl, Eq.refl ((skipBlank cs).dropWhile isNameChar)⟩
      refine ⟨⟨?_, hw⟩, hskip, hrest⟩
      intro hnil
      rw [hnil] at hne
      exact hne rfl
  · rintro ⟨hw, hskip, hrest⟩
    obtain ⟨htake, hdrop⟩ := takeWhile_dropWhile_iff.2 ⟨hskip, hw.isNameChar, hrest⟩
    have hne : ¬ ((skipBlank cs).takeWhile isNameChar).isEmpty = true := by
      rw [htake, List.isEmpty_iff]
      exact hw.ne_nil
    dsimp only
    rw [dif_neg hne]
    subst htake hdrop
    exact ⟨_, rfl⟩

/-! ### Names -/

theorem reads_readWords_dot_iff {ds words rest : List Char} :
    Reads (readWords ('.' :: ds)) words rest ↔
      ∃ w mid ws, Reads (readWord ds) w mid ∧ Reads (readWords mid) ws rest ∧
        words = '.' :: w ++ ws := by
  rw [readWords]
  simp only [reads_bind_iff, reads_pure_iff]
  constructor
  · rintro ⟨w, mid, -, hw, ws, _, -, hws, rfl, rfl⟩
    exact ⟨w, mid, ws, hw, hws, rfl⟩
  · rintro ⟨w, mid, ws, hw, hws, rfl⟩
    exact ⟨w, mid, hw.1, hw, ws, rest, hws.1, hws, rfl, rfl⟩

theorem reads_readWords_iff {cs words rest : List Char} (h : ∀ ds, cs ≠ '.' :: ds) :
    Reads (readWords cs) words rest ↔ words = [] ∧ rest = cs := by
  rw [readWords]
  · rw [reads_pure_iff]
    exact and_congr eq_comm eq_comm
  · exact h

theorem reads_readName_iff {cs rest : List Char} {name : String} :
    Reads (readName cs) name rest ↔
      ∃ w mid words, Reads (readWord cs) w mid ∧ Reads (readWords mid) words rest ∧
        name = String.ofList (w ++ words) := by
  rw [readName]
  simp only [reads_bind_iff, reads_pure_iff]
  constructor
  · rintro ⟨w, mid, -, hw, words, _, -, hwords, rfl, rfl⟩
    exact ⟨w, mid, words, hw, hwords, rfl⟩
  · rintro ⟨w, mid, words, hw, hwords, rfl⟩
    exact ⟨w, mid, hw.1, hw, words, rest, hwords.1, hwords, rfl, rfl⟩

/-! ### References -/

theorem reads_readType_iff {cs rest : List Char} {t : TypeRef} :
    Reads (readType cs) t rest ↔ ∃ name mid, Reads (readName cs) name mid ∧
      ((takeMark '<' mid = none ∧ t = mk name [] (readNullable mid).1 ∧
          rest = (readNullable mid).2) ∨
        ∃ ds as last, takeMark '<' mid = some ds ∧ Reads (readArguments ds) as last ∧
          t = mk name as (readNullable last).1 ∧ rest = (readNullable last).2) := by
  rw [readType]
  simp only [reads_bind_iff]
  constructor
  · rintro ⟨name, mid, hlt, hname, hrest⟩
    refine ⟨name, mid, hname, ?_⟩
    split at hrest
    · obtain ⟨rfl, rfl⟩ := reads_pure_iff.1 hrest
      exact .inl ⟨‹_›, rfl, rfl⟩
    · obtain ⟨as, last, _, has, hrest⟩ := reads_bind_iff.1 hrest
      obtain ⟨rfl, rfl⟩ := reads_pure_iff.1 hrest
      exact .inr ⟨_, as, last, ‹_›, has, rfl, rfl⟩
  · rintro ⟨name, mid, hname, ⟨hmark, rfl, rfl⟩ | ⟨ds, as, last, hmark, has, rfl, rfl⟩⟩
    · refine ⟨name, mid, hname.1, hname, ?_⟩
      split
      · exact reads_pure_iff.2 ⟨rfl, rfl⟩
      · rename_i hmark'
        cases hmark.symm.trans hmark'
    · refine ⟨name, mid, hname.1, hname, ?_⟩
      split
      · rename_i hmark'
        cases hmark.symm.trans hmark'
      · rename_i ds' hmark'
        obtain rfl : ds = ds' := Option.some.inj (hmark.symm.trans hmark')
        refine reads_bind_iff.2 ⟨as, last, has.1, has, ?_⟩
        exact reads_pure_iff.2 ⟨rfl, rfl⟩

theorem reads_readArgument_iff {cs rest : List Char} {a : TypeArgument} :
    Reads (readArgument cs) a rest ↔
      (takeMark '*' cs = some rest ∧ a = .star) ∨
      ∃ ref, takeMark '*' cs = none ∧ Reads (readType (readVariance cs).2) ref rest ∧
        a = .type (readVariance cs).1 ref := by
  rw [readArgument]
  split
  · rename_i ds hmark
    rw [reads_pure_iff, hmark]
    constructor
    · rintro ⟨rfl, rfl⟩
      exact .inl ⟨rfl, rfl⟩
    · rintro (⟨hrest, rfl⟩ | ⟨_, hmark, -⟩)
      · exact ⟨rfl, Option.some.inj hrest⟩
      · cases hmark
  · rename_i hmark
    simp only [reads_bind_iff, reads_pure_iff, hmark]
    constructor
    · rintro ⟨ref, _, -, href, rfl, rfl⟩
      exact .inr ⟨ref, trivial, href, rfl⟩
    · rintro (⟨hmark, -⟩ | ⟨ref, -, href, rfl⟩)
      · cases hmark
      · exact ⟨ref, rest, href.1, href, rfl, rfl⟩

/-- After an argument the others are read, or the closing bracket if there are none. -/
def ReadsRest (as : List TypeArgument) (cs rest : List Char) : Prop :=
  (∃ ds, takeMark ',' cs = some ds ∧ Reads (readArguments ds) as rest) ∨
    (takeMark ',' cs = none ∧ takeMark '>' cs = some rest ∧ as = [])

theorem reads_readArguments_iff {cs rest : List Char} {as : List TypeArgument} :
    Reads (readArguments cs) as rest ↔
      ∃ a as' mid, as = a :: as' ∧ Reads (readArgument cs) a mid ∧ ReadsRest as' mid rest := by
  rw [readArguments]
  simp only [reads_bind_iff]
  constructor
  · rintro ⟨a, mid, hlt, ha, hrest⟩
    split at hrest
    · rename_i ds hcomma
      obtain ⟨as', _, _, has, hrest⟩ := reads_bind_iff.1 hrest
      obtain ⟨rfl, rfl⟩ := reads_pure_iff.1 hrest
      exact ⟨a, as', mid, rfl, ha, .inl ⟨ds, hcomma, has⟩⟩
    · rename_i hcomma
      split at hrest
      · rename_i ds hclose
        obtain ⟨rfl, rfl⟩ := reads_pure_iff.1 hrest
        exact ⟨a, [], mid, rfl, ha, .inr ⟨hcomma, hclose, rfl⟩⟩
      · exact absurd hrest reads_throw
  · rintro ⟨a, as', mid, rfl, ha, hrest⟩
    refine ⟨a, mid, ha.1, ha, ?_⟩
    rcases hrest with ⟨ds, hcomma, has⟩ | ⟨hcomma, hclose, rfl⟩
    · split
      · rename_i ds' hcomma'
        obtain rfl : ds = ds' := Option.some.inj (hcomma.symm.trans hcomma')
        refine reads_bind_iff.2 ⟨as', rest, has.1, has, ?_⟩
        exact reads_pure_iff.2 ⟨rfl, rfl⟩
      · rename_i hcomma'
        cases hcomma.symm.trans hcomma'
    · split
      · rename_i hcomma'
        cases hcomma.symm.trans hcomma'
      · split
        · rename_i ds' hclose'
          obtain rfl : rest = ds' := Option.some.inj (hclose.symm.trans hclose')
          exact reads_pure_iff.2 ⟨rfl, rfl⟩
        · rename_i hclose'
          cases hclose.symm.trans hclose'

/-! ### Variances -/

theorem endsKeyword_iff {cs : List Char} :
    endsKeyword cs = true ↔ (∃ c ds, cs = c :: ds ∧ isBlank c = true) ∧
      (skipBlank cs).head?.any isTypeStart = true := by
  cases cs with
  | nil => exact ⟨nofun, nofun⟩
  | cons c ds =>
    rw [endsKeyword, Bool.and_eq_true]
    constructor
    · rintro ⟨hc, hds⟩
      refine ⟨⟨c, ds, rfl, hc⟩, ?_⟩
      rw [skipBlank, List.dropWhile_cons_of_pos hc]
      exact hds
    · rintro ⟨⟨_, _, ⟨⟩, hc⟩, hds⟩
      rw [skipBlank, List.dropWhile_cons_of_pos hc] at hds
      exact ⟨hc, hds⟩

/-- Either a keyword is read, and it ends, or no keyword that comes next ends. -/
theorem readVariance_cases (cs : List Char) :
    (∃ v rest, v ≠ .invariant ∧ skipBlank cs = v.word ++ rest ∧ endsKeyword rest = true ∧
      readVariance cs = (v, rest)) ∨
    ((∀ (v : Variance) (rest : List Char), v ≠ .invariant → endsKeyword rest = true →
        skipBlank cs ≠ v.word ++ rest) ∧
      readVariance cs = (.invariant, skipBlank cs)) := by
  -- a keyword that does not end leaves no other to be read
  have hnone : ∀ {v : Variance} {rest : List Char}, v ≠ .invariant → endsKeyword rest = false →
      skipBlank cs = v.word ++ rest → ∀ (v' : Variance) (rest' : List Char), v' ≠ .invariant →
        endsKeyword rest' = true → skipBlank cs ≠ v'.word ++ rest' := by
    intro v rest hv hends hskip v' rest' hv' hends' heq
    obtain ⟨-, rfl⟩ := Variance.word_append_inj hv hv' (hskip.symm.trans heq)
    rw [hends] at hends'
    cases hends'
  unfold readVariance
  split
  · rename_i rest hskip
    cases hends : endsKeyword rest with
    | true => exact .inl ⟨.contravariant, rest, nofun, hskip, hends, rfl⟩
    | false =>
      refine .inr ⟨hnone (v := .contravariant) nofun hends hskip, ?_⟩
      rw [hskip]
      rfl
  · rename_i rest hskip
    cases hends : endsKeyword rest with
    | true => exact .inl ⟨.covariant, rest, nofun, hskip, hends, rfl⟩
    | false =>
      refine .inr ⟨hnone (v := .covariant) nofun hends hskip, ?_⟩
      rw [hskip]
      rfl
  · rename_i hin hout
    refine .inr ⟨fun v rest hv _ heq => ?_, rfl⟩
    cases v with
    | invariant => exact hv rfl
    | contravariant => exact hin rest heq
    | covariant => exact hout rest heq

/-! ### What is read is a reference -/

/-- The text is the tokens followed by the rest. -/
def Spans (toks : List Token) (cs rest : List Char) : Prop :=
  ∀ further, Spells further rest → Spells (toks ++ further) cs

theorem Spans.append {toks toks' : List Token} {cs mid rest : List Char} (h : Spans toks cs mid)
    (h' : Spans toks' mid rest) : Spans (toks ++ toks') cs rest := by
  intro further hfurther
  rw [List.append_assoc]
  exact h _ (h' further hfurther)

theorem spans_nil (cs : List Char) : Spans [] cs cs :=
  fun _ h => h

theorem spans_takeMark {c : Char} {cs rest : List Char} (h : takeMark c cs = some rest)
    (hc : isBlank c = false := by decide) (hdot : c ≠ '.' := by decide) :
    Spans [.mark c] cs rest :=
  fun _ hfurther => (spells_mark_iff hc hdot).2 ⟨rest, takeMark_eq_some.1 h, hfurther⟩

theorem spans_dot (cs : List Char) : Spans [.mark '.'] ('.' :: cs) cs :=
  fun _ hfurther => spells_dot_iff.2 ⟨cs, rfl, hfurther⟩

theorem spans_readWord {cs w rest : List Char} (h : Reads (readWord cs) w rest) :
    Spans [.part w] cs rest := by
  obtain ⟨hw, hskip, -⟩ := reads_readWord_iff.1 h
  exact fun _ hfurther => (spells_part_iff hw).2 ⟨rest, hskip, hfurther⟩

theorem spans_keyword {w cs rest : List Char} (hw : IsPart w) (hskip : skipBlank cs = w ++ rest)
    (hrest : ∃ c ds, rest = c :: ds ∧ isBlank c = true) : Spans [.keyword w] cs rest := by
  have hvisible : (Token.keyword w).Visible := visible_part hw
  intro further hfurther
  exact (spells_cons_iff hvisible).2 ⟨rest, hskip, nofun, fun _ => hrest, hfurther⟩

theorem spans_readNullable (cs : List Char) :
    Spans (nullableTokens (readNullable cs).1) cs (readNullable cs).2 := by
  unfold readNullable
  split
  · exact spans_takeMark ‹_›
  · exact spans_nil cs

theorem sound_readWords (cs : List Char) : ∀ {words rest : List Char},
    Reads (readWords cs) words rest → ∃ ws, words = ws.flatMap ('.' :: ·) ∧
      (∀ w ∈ ws, IsPart w) ∧ Spans (furtherTokens ws) cs rest := by
  induction cs using readWords.induct with
  | case1 ds ih =>
    intro words rest h
    obtain ⟨w, mid, words, hw, hwords, rfl⟩ := reads_readWords_dot_iff.1 h
    obtain ⟨ws, rfl, hws, hspans⟩ := ih w mid hw.1 hwords
    refine ⟨w :: ws, rfl, List.forall_mem_cons.2 ⟨(reads_readWord_iff.1 hw).1, hws⟩, ?_⟩
    exact ((spans_dot ds).append (spans_readWord hw)).append hspans
  | case2 cs hdot =>
    intro words rest h
    obtain ⟨rfl, rfl⟩ := (reads_readWords_iff hdot).1 h
    exact ⟨[], rfl, nofun, spans_nil _⟩

theorem not_dot_mem_of_isPart {w : List Char} (h : IsPart w) : '.' ∉ w := by
  intro hdot
  have hname : isNameChar '.' = false := by decide
  rw [h.isNameChar '.' hdot] at hname
  cases hname

theorem sound_readName {cs rest : List Char} {name : String} (h : Reads (readName cs) name rest) :
    IsName name ∧ Spans (partsTokens (segmentsOf name.toList)) cs rest := by
  obtain ⟨w, mid, words, hw, hwords, rfl⟩ := reads_readName_iff.1 h
  obtain ⟨ws, rfl, hws, hspans⟩ := sound_readWords mid hwords
  have hparts : ∀ v ∈ w :: ws, IsPart v :=
    List.forall_mem_cons.2 ⟨(reads_readWord_iff.1 hw).1, hws⟩
  have hsegments : segmentsOf (w ++ ws.flatMap ('.' :: ·)) = w :: ws :=
    segmentsOf_eq_cons_iff.2 ⟨rfl, fun v hv => not_dot_mem_of_isPart (hparts v hv)⟩
  rw [IsName, String.toList_ofList, hsegments]
  exact ⟨hparts, (spans_readWord hw).append hspans⟩

/-- The name that is read starts with the first visible character. -/
theorem head?_name_of_reads {cs rest : List Char} {t : TypeRef} (h : Reads (readType cs) t rest) :
    t.name.toList.head? = (skipBlank cs).head? := by
  obtain ⟨name, mid, hname, hrest⟩ := reads_readType_iff.1 h
  have htname : t.name = name := by
    rcases hrest with ⟨-, rfl, -⟩ | ⟨_, _, _, -, -, rfl, -⟩
    · rfl
    · rfl
  obtain ⟨w, mid', words, hw, -, rfl⟩ := reads_readName_iff.1 hname
  obtain ⟨hpart, hskip, -⟩ := reads_readWord_iff.1 hw
  obtain ⟨c, w, rfl⟩ := List.exists_cons_of_ne_nil hpart.ne_nil
  rw [htname, String.toList_ofList, hskip]
  rfl

/-- After a keyword that ends, what is read starts as it must. -/
theorem sound_keyword {w cs ds rest : List Char} {ref : TypeRef} (hw : IsPart w)
    (hskip : skipBlank cs = w ++ ds) (hends : endsKeyword ds = true)
    (href : Reads (readType ds) ref rest) (hspans : Spans ref.tokens ds rest) :
    ref.StartsType ∧ Spans (.keyword w :: ref.tokens) cs rest := by
  obtain ⟨hblank, hstart⟩ := endsKeyword_iff.1 hends
  refine ⟨?_, (spans_keyword hw hskip hblank).append hspans⟩
  rw [StartsType, head?_name_of_reads href]
  exact hstart

theorem spans_of_skipBlank {cs rest : List Char} {ref : TypeRef}
    (h : Spans ref.tokens (skipBlank cs) rest) : Spans ref.tokens cs rest := by
  intro further hfurther
  obtain ⟨blanks, hblanks, heq⟩ := exists_blanks cs
  rw [heq]
  exact (h further hfurther).blanks hblanks (head?_tokens_ne_dot ref further)

theorem sound_readType (cs : List Char) : ∀ t rest,
    Reads (readType cs) t rest → t.WellFormed ∧ Spans t.tokens cs rest := by
  refine readType.induct
    (fun cs => ∀ t rest, Reads (readType cs) t rest → t.WellFormed ∧ Spans t.tokens cs rest)
    (fun cs => ∀ as rest, Reads (readArguments cs) as rest →
      ∃ a as', as = a :: as' ∧ WellFormedList as ∧
        Spans (argumentTokens a ++ restTokens as') cs rest)
    (fun cs => ∀ a rest, Reads (readArgument cs) a rest →
      WellFormedArgument a ∧ Spans (argumentTokens a) cs rest) ?_ ?_ ?_ ?_ cs
  · -- a reference
    intro cs ih t rest h
    obtain ⟨name, mid, hname, hrest⟩ := reads_readType_iff.1 h
    obtain ⟨hisName, hspans⟩ := sound_readName hname
    rcases hrest with ⟨-, rfl, rfl⟩ | ⟨ds, as, last, hmark, has, rfl, rfl⟩
    · rw [WellFormed, tokens, listTokens, List.append_nil]
      exact ⟨⟨hisName, trivial⟩, hspans.append (spans_readNullable mid)⟩
    · obtain ⟨a, as', rfl, hlist, hspans'⟩ := ih name mid hname.1 ds hmark as last has
      rw [WellFormed, tokens, listTokens]
      refine ⟨⟨hisName, hlist⟩, ?_⟩
      exact (hspans.append ((spans_takeMark hmark).append hspans')).append (spans_readNullable last)
  · -- arguments
    intro cs iha ihas as rest h
    obtain ⟨a, as', mid, rfl, ha, hrest⟩ := reads_readArguments_iff.1 h
    obtain ⟨hargument, hspans⟩ := iha a mid ha
    rcases hrest with ⟨ds, hcomma, has⟩ | ⟨-, hclose, rfl⟩
    · obtain ⟨a', as'', rfl, hlist, hspans'⟩ := ihas a mid ha.1 ds hcomma as' rest has
      refine ⟨a, a' :: as'', rfl, ⟨hargument, hlist⟩, ?_⟩
      exact hspans.append ((spans_takeMark hcomma).append hspans')
    · exact ⟨a, [], rfl, ⟨hargument, trivial⟩, hspans.append (spans_takeMark hclose)⟩
  · -- a star
    intro cs ds hstar a rest h
    rcases reads_readArgument_iff.1 h with ⟨hmark, rfl⟩ | ⟨_, hmark, -⟩
    · exact ⟨trivial, spans_takeMark hmark⟩
    · rw [hstar] at hmark
      cases hmark
  · -- another argument
    intro cs hstar _ ih a rest h
    rcases reads_readArgument_iff.1 h with ⟨hmark, -⟩ | ⟨ref, -, href, rfl⟩
    · rw [hstar] at hmark
      cases hmark
    obtain ⟨hwell, hspans⟩ := ih ref rest href
    rw [WellFormedArgument, argumentTokens]
    rcases readVariance_cases cs with ⟨v, ds, hv, hskip, hends, heq⟩ | ⟨-, heq⟩
    · rw [heq] at href hspans ⊢
      rw [Variance.tokens_eq hv]
      obtain ⟨hstarts, hspans⟩ := sound_keyword (Variance.isPart_word hv) hskip hends href hspans
      exact ⟨⟨.inr hstarts, hwell⟩, hspans⟩
    · rw [heq] at hspans ⊢
      exact ⟨⟨.inl rfl, hwell⟩, spans_of_skipBlank hspans⟩

/-! ### Every reference is read -/

/-- If anything comes next, it is one of these marks. -/
def Next (marks : List Char) (toks : List Token) : Prop :=
  ∀ tok ∈ toks.head?, ∃ c ∈ marks, tok = .mark c

/-- The marks that may follow a part of a name. -/
def afterPart : List Char := ['.', '<', '?', ',', '>']

variable {marks : List Char} {toks : List Token} {cs : List Char}

theorem Next.mono {marks' : List Char} (h : Next marks toks) (hsub : marks ⊆ marks') :
    Next marks' toks := by
  intro tok htok
  obtain ⟨c, hc, rfl⟩ := h tok htok
  exact ⟨c, hsub hc, rfl⟩

theorem next_nil : Next marks [] := by
  rintro tok ⟨⟩

theorem next_cons {c : Char} (h : c ∈ marks) : Next marks (.mark c :: toks) := by
  rintro tok ⟨⟩
  exact ⟨c, h, rfl⟩

theorem afterPart_spec : ∀ c ∈ afterPart, isBlank c = false ∧ isNameChar c = false ∧
    isTypeStart c = false := by
  have hall : afterPart.all (fun c => !isBlank c && !isNameChar c && !isTypeStart c) = true := by
    decide
  intro c hc
  simpa [and_assoc] using List.all_eq_true.1 hall c hc

theorem head?_skipBlank_of_next (hmarks : marks ⊆ afterPart) (hnext : Next marks toks)
    (h : Spells toks cs) : ∀ c ∈ (skipBlank cs).head?, c ∈ marks := by
  have hvisible : ∀ tok ∈ toks.head?, tok.Visible := by
    intro tok htok
    obtain ⟨c, hc, rfl⟩ := hnext tok htok
    exact visible_mark (afterPart_spec c (hmarks hc)).1
  intro c hc
  rw [head?_skipBlank_of_spells hvisible h] at hc
  cases htok : toks.head? with
  | none =>
    rw [htok] at hc
    cases hc
  | some tok =>
    obtain ⟨d, hd, rfl⟩ := hnext tok htok
    rw [htok] at hc
    cases hc
    exact hd

theorem head?_of_next (hmarks : marks ⊆ afterPart) (hnext : Next marks toks)
    (h : Spells toks cs) : ∀ c ∈ cs.head?, isBlank c = true ∨ c ∈ marks := by
  intro c hc
  cases hblank : isBlank c with
  | true => exact .inl rfl
  | false =>
    obtain ⟨ds, rfl⟩ := List.head?_eq_some_iff.1 hc
    refine .inr (head?_skipBlank_of_next hmarks hnext h c ?_)
    rw [skipBlank, List.dropWhile_cons_of_neg (by rw [hblank]; exact Bool.false_ne_true)]
    rfl

/-- A part of a name ends where one of the marks that may follow comes next. -/
theorem isNameChar_of_next (hmarks : marks ⊆ afterPart) (hnext : Next marks toks)
    (h : Spells toks cs) : ∀ c ∈ cs.head?, isNameChar c = false := by
  intro c hc
  rcases head?_of_next hmarks hnext h c hc with hblank | hc
  · exact isNameChar_of_isBlank hblank
  · exact (afterPart_spec c (hmarks hc)).2.1

theorem takeMark_eq_none {c : Char} (h : (skipBlank cs).head? ≠ some c) : takeMark c cs = none := by
  cases hmark : takeMark c cs with
  | none => rfl
  | some rest =>
    rw [takeMark_eq_some.1 hmark] at h
    exact absurd rfl h

theorem takeMark_of_next {c : Char} (hmarks : marks ⊆ afterPart) (hnext : Next marks toks)
    (h : Spells toks cs) (hc : c ∉ marks) : takeMark c cs = none :=
  takeMark_eq_none fun hhead => hc (head?_skipBlank_of_next hmarks hnext h c hhead)

theorem takeMark_of_spells {c : Char} (h : Spells (.mark c :: toks) cs)
    (hc : isBlank c = false := by decide) (hdot : c ≠ '.' := by decide) :
    ∃ rest, takeMark c cs = some rest ∧ Spells toks rest := by
  obtain ⟨rest, hskip, hrest⟩ := (spells_mark_iff hc hdot).1 h
  exact ⟨rest, takeMark_eq_some.2 hskip, hrest⟩

theorem next_nullable (nullable : Bool) (h : Next [',', '>'] toks) :
    Next ['?', ',', '>'] (nullableTokens nullable ++ toks) := by
  cases nullable with
  | true => exact next_cons (by decide)
  | false => exact h.mono (by decide)

theorem complete_readNullable {nullable : Bool} (hnext : Next [',', '>'] toks)
    (h : Spells (nullableTokens nullable ++ toks) cs) :
    ∃ rest, readNullable cs = (nullable, rest) ∧ Spells toks rest := by
  unfold readNullable
  cases nullable with
  | true =>
    obtain ⟨rest, hmark, hrest⟩ := takeMark_of_spells h
    rw [hmark]
    exact ⟨rest, rfl, hrest⟩
  | false =>
    rw [takeMark_of_next (by decide) hnext h (by decide)]
    exact ⟨cs, rfl, h⟩

theorem next_furtherTokens (ws : List (List Char)) (h : Next ['<', '?', ',', '>'] toks) :
    Next afterPart (furtherTokens ws ++ toks) := by
  cases ws with
  | nil => exact h.mono (by decide)
  | cons w ws => exact next_cons (by decide)

theorem complete_readWords {ws : List (List Char)} (hws : ∀ w ∈ ws, IsPart w)
    (hnext : Next ['<', '?', ',', '>'] toks) : ∀ {cs}, Spells (furtherTokens ws ++ toks) cs →
      ∃ rest, Reads (readWords cs) (ws.flatMap ('.' :: ·)) rest ∧ Spells toks rest := by
  induction ws with
  | nil =>
    intro cs h
    refine ⟨cs, (reads_readWords_iff ?_).2 ⟨rfl, rfl⟩, h⟩
    -- a dot would be neither a blank nor a mark that may come next
    rintro ds rfl
    rcases head?_of_next (by decide) hnext h '.' rfl with hdot | hdot
    · revert hdot
      decide
    · revert hdot
      decide
  | cons w ws ih =>
    intro cs h
    obtain ⟨hw, hws⟩ := List.forall_mem_cons.1 hws
    obtain ⟨ds, rfl, hpart⟩ := spells_dot_iff.1 h
    obtain ⟨mid, hskip, hmid⟩ := (spells_part_iff hw).1 hpart
    obtain ⟨rest, hreads, hrest⟩ := ih hws hmid
    have hends := isNameChar_of_next (List.Subset.refl _) (next_furtherTokens ws hnext) hmid
    have hword := reads_readWord_iff.2 ⟨hw, hskip, hends⟩
    exact ⟨rest, reads_readWords_dot_iff.2 ⟨w, mid, _, hword, hreads, rfl⟩, hrest⟩

theorem complete_readName {name : String} (hname : IsName name)
    (hnext : Next ['<', '?', ',', '>'] toks)
    (h : Spells (partsTokens (segmentsOf name.toList) ++ toks) cs) :
    ∃ rest, Reads (readName cs) name rest ∧ Spells toks rest := by
  obtain ⟨w, ws, hws⟩ := exists_segmentsOf_eq_cons name.toList
  rw [IsName, hws, List.forall_mem_cons] at hname
  rw [hws] at h
  obtain ⟨mid, hskip, hmid⟩ := (spells_part_iff hname.1).1 h
  obtain ⟨rest, hreads, hrest⟩ := complete_readWords hname.2 hnext hmid
  have hends := isNameChar_of_next (List.Subset.refl _) (next_furtherTokens ws hnext) hmid
  have hword := reads_readWord_iff.2 ⟨hname.1, hskip, hends⟩
  refine ⟨rest, reads_readName_iff.2 ⟨w, mid, _, hword, hreads, ?_⟩, hrest⟩
  rw [← (segmentsOf_eq_cons_iff.1 hws).1, String.ofList_toList]

/-- A part of a name is no keyword, since no further word comes next. -/
theorem readVariance_of_part {w : List Char} (hw : IsPart w) (hnext : Next afterPart toks)
    (h : Spells (.part w :: toks) cs) : readVariance cs = (.invariant, skipBlank cs) := by
  obtain ⟨mid, hskip, hmid⟩ := (spells_part_iff hw).1 h
  have hends := isNameChar_of_next (List.Subset.refl _) hnext hmid
  -- a keyword would be the whole part, and what follows it would start a type
  have hnone : ∀ {v rest : List Char}, (∀ c ∈ v, isNameChar c = true) → endsKeyword rest = true →
      skipBlank cs ≠ v ++ rest := by
    intro v rest hv hrest heq
    obtain ⟨⟨c, ds, rfl, hc⟩, hstart⟩ := endsKeyword_iff.1 hrest
    have hpart := takeWhile_dropWhile_iff.2 ⟨hskip, hw.isNameChar, hends⟩
    have hhead : ∀ d ∈ (c :: ds).head?, isNameChar d = false := by
      rintro d ⟨⟩
      exact isNameChar_of_isBlank hc
    have hkeyword := takeWhile_dropWhile_iff.2 ⟨heq, hv, hhead⟩
    rw [← hkeyword.2, hpart.2] at hstart
    cases hnextChar : (skipBlank mid).head? with
    | none =>
      rw [hnextChar] at hstart
      cases hstart
    | some d =>
      rw [hnextChar] at hstart
      have hd := head?_skipBlank_of_next (List.Subset.refl _) hnext hmid d hnextChar
      have hnot := (afterPart_spec d hd).2.2
      rw [show isTypeStart d = true from hstart] at hnot
      cases hnot
  rcases readVariance_cases cs with ⟨v, rest, hv, heq, hrest, -⟩ | ⟨-, heq⟩
  · exact absurd heq (hnone (Variance.isPart_word hv).isNameChar hrest)
  · exact heq

theorem next_restTokens (as : List TypeArgument) (toks : List Token) :
    Next [',', '>'] (restTokens as ++ toks) := by
  cases as with
  | nil => exact next_cons (by decide)
  | cons a as => exact next_cons (by decide)

theorem next_listTokens (as : List TypeArgument) (h : Next ['?', ',', '>'] toks) :
    Next ['<', '?', ',', '>'] (listTokens as ++ toks) := by
  cases as with
  | nil => exact h.mono (by decide)
  | cons a as => exact next_cons (by decide)

/-- A well-formed reference starts with a part of its name, which ends there. -/
theorem exists_part {t : TypeRef} (h : t.WellFormed) (hnext : Next [',', '>'] toks) :
    ∃ w toks', IsPart w ∧ t.name.toList.head? = w.head? ∧ t.tokens ++ toks = .part w :: toks' ∧
      Next afterPart toks' := by
  obtain ⟨name, as, nullable⟩ := t
  obtain ⟨w, ws, hws⟩ := exists_segmentsOf_eq_cons name.toList
  have hparts : ∀ v ∈ segmentsOf name.toList, IsPart v := h.1
  rw [hws, List.forall_mem_cons] at hparts
  have hfurther := next_furtherTokens ws (next_listTokens as (next_nullable nullable hnext))
  refine ⟨w, _, hparts.1, ?_, ?_, hfurther⟩
  · obtain ⟨c, w, rfl⟩ := List.exists_cons_of_ne_nil hparts.1.ne_nil
    rw [name_mk, (segmentsOf_eq_cons_iff.1 hws).1]
    rfl
  · rw [tokens, hws]
    simp only [partsTokens, List.cons_append, List.append_assoc]

/-- A keyword ends in front of what starts a type. -/
theorem readVariance_of_keyword {v : Variance} (hv : v ≠ .invariant) {w : List Char}
    (hw : IsPart w) (hstart : w.head?.any isTypeStart = true)
    (h : Spells (.keyword v.word :: .part w :: toks) cs) :
    ∃ ds, skipBlank cs = v.word ++ ds ∧ readVariance cs = (v, ds) ∧
      Spells (.part w :: toks) ds := by
  have hvisible : (Token.keyword v.word).Visible := visible_part (Variance.isPart_word hv)
  obtain ⟨ds, hskip, -, hblank, hds⟩ := (spells_cons_iff hvisible).1 h
  have hpart : ∀ tok ∈ (Token.part w :: toks).head?, tok.Visible := by
    rintro tok ⟨⟩
    exact visible_part hw
  have hends : endsKeyword ds = true := by
    refine endsKeyword_iff.2 ⟨hblank rfl, ?_⟩
    rw [head?_skipBlank_of_spells hpart hds]
    exact hstart
  refine ⟨ds, hskip, ?_, hds⟩
  rcases readVariance_cases cs with ⟨v', ds', hv', hskip', -, heq⟩ | ⟨hnone, -⟩
  · obtain ⟨rfl, rfl⟩ := Variance.word_append_inj hv hv' (hskip.symm.trans hskip')
    exact heq
  · exact absurd hskip (hnone v ds hv hends)

/-- No mark comes next where a word does. -/
theorem takeMark_of_word {c : Char} {w ds : List Char} (hw : IsPart w)
    (hskip : skipBlank cs = w ++ ds) (hc : isNameChar c = false) : takeMark c cs = none := by
  refine takeMark_eq_none fun hhead => ?_
  obtain ⟨d, w, rfl⟩ := List.exists_cons_of_ne_nil hw.ne_nil
  rw [hskip] at hhead
  obtain rfl : d = c := Option.some.inj hhead
  rw [hw.isNameChar d List.mem_cons_self] at hc
  cases hc

theorem complete_readVariance {t : TypeRef} {v : Variance} (h : t.WellFormed)
    (hstart : v = .invariant ∨ t.StartsType) (hnext : Next [',', '>'] toks)
    (hspells : Spells (v.tokens ++ (t.tokens ++ toks)) cs) :
    takeMark '*' cs = none ∧ ∃ ds, readVariance cs = (v, ds) ∧ Spells (t.tokens ++ toks) ds := by
  obtain ⟨w, toks', hw, hhead, htokens, hnext'⟩ := exists_part h hnext
  rw [htokens] at hspells ⊢
  by_cases hv : v = .invariant
  · subst hv
    obtain ⟨ds, hskip, hds⟩ := (spells_part_iff hw).1 hspells
    refine ⟨takeMark_of_word hw hskip (by decide), skipBlank cs,
      readVariance_of_part hw hnext' hspells, ?_⟩
    refine (spells_part_iff hw).2 ⟨ds, ?_, hds⟩
    rw [hskip]
    exact skipBlank_of_visible (visible_part hw)
  · rw [Variance.tokens_eq hv] at hspells
    have hstarts : w.head?.any isTypeStart = true := hhead ▸ hstart.resolve_left hv
    obtain ⟨ds, hskip, hvariance, hds⟩ := readVariance_of_keyword hv hw hstarts hspells
    exact ⟨takeMark_of_word (Variance.isPart_word hv) hskip (by decide), ds, hvariance, hds⟩

mutual

theorem complete_readType : ∀ (t : TypeRef) {toks : List Token} {cs : List Char}, t.WellFormed →
    Next [',', '>'] toks → Spells (t.tokens ++ toks) cs →
    ∃ rest, Reads (readType cs) t rest ∧ Spells toks rest
  | mk name [] nullable, toks, cs, hwell, hnext, h => by
    rw [tokens, listTokens, List.append_nil, List.append_assoc] at h
    have hnext' := next_nullable nullable hnext
    obtain ⟨mid, hname, hmid⟩ := complete_readName hwell.1 (hnext'.mono (by decide)) h
    obtain ⟨rest, hnullable, hrest⟩ := complete_readNullable hnext hmid
    -- what follows the name is not the bracket of an argument list
    have hmark := takeMark_of_next (c := '<') (by decide) hnext' hmid (by decide)
    refine ⟨rest, reads_readType_iff.2 ⟨name, mid, hname, .inl ⟨hmark, ?_, ?_⟩⟩, hrest⟩
    · rw [hnullable]
    · rw [hnullable]
  | mk name (a :: as) nullable, toks, cs, hwell, hnext, h => by
    simp only [tokens, listTokens, List.append_assoc, List.cons_append] at h
    obtain ⟨mid, hname, hmid⟩ := complete_readName hwell.1 (next_cons (by decide)) h
    obtain ⟨ds, hmark, hds⟩ := takeMark_of_spells hmid
    obtain ⟨mid', ha, hmid'⟩ := complete_readArgument a hwell.2.1 (next_restTokens as _) hds
    obtain ⟨last, has, hlast⟩ := complete_readsRest as hwell.2.2 hmid'
    obtain ⟨rest, hnullable, hrest⟩ := complete_readNullable hnext hlast
    have harguments := reads_readArguments_iff.2 ⟨a, as, mid', rfl, ha, has⟩
    refine ⟨rest, reads_readType_iff.2
      ⟨name, mid, hname, .inr ⟨ds, a :: as, last, hmark, harguments, ?_, ?_⟩⟩, hrest⟩
    · rw [hnullable]
    · rw [hnullable]

theorem complete_readArgument : ∀ (a : TypeArgument) {toks : List Token} {cs : List Char},
    WellFormedArgument a → Next [',', '>'] toks → Spells (argumentTokens a ++ toks) cs →
    ∃ rest, Reads (readArgument cs) a rest ∧ Spells toks rest
  | .star, toks, cs, _, _, h => by
    obtain ⟨rest, hmark, hrest⟩ := takeMark_of_spells h
    exact ⟨rest, reads_readArgument_iff.2 (.inl ⟨hmark, rfl⟩), hrest⟩
  | .type variance ref, toks, cs, hwell, hnext, h => by
    rw [argumentTokens, List.append_assoc] at h
    obtain ⟨hstar, ds, hvariance, hds⟩ := complete_readVariance hwell.2 hwell.1 hnext h
    obtain ⟨rest, hreads, hrest⟩ := complete_readType ref hwell.2 hnext hds
    refine ⟨rest, reads_readArgument_iff.2 (.inr ⟨ref, hstar, ?_, ?_⟩), hrest⟩
    · rw [hvariance]
      exact hreads
    · rw [hvariance]

theorem complete_readsRest : ∀ (as : List TypeArgument) {toks : List Token} {cs : List Char},
    WellFormedList as → Spells (restTokens as ++ toks) cs →
    ∃ rest, ReadsRest as cs rest ∧ Spells toks rest
  | [], toks, cs, _, h => by
    obtain ⟨rest, hmark, hrest⟩ := takeMark_of_spells h
    have hnext : Next ['>'] (.mark '>' :: toks) := next_cons (by decide)
    -- the reader looks for a comma before it looks for the end
    have hcomma := takeMark_of_next (c := ',') (by decide) hnext h (by decide)
    exact ⟨rest, .inr ⟨hcomma, hmark, rfl⟩, hrest⟩
  | a :: as, toks, cs, hwell, h => by
    simp only [restTokens, List.append_assoc, List.cons_append] at h
    obtain ⟨ds, hmark, hds⟩ := takeMark_of_spells h
    obtain ⟨mid, ha, hmid⟩ := complete_readArgument a hwell.1 (next_restTokens as toks) hds
    obtain ⟨rest, has, hrest⟩ := complete_readsRest as hwell.2 hmid
    exact ⟨rest, .inl ⟨ds, hmark, reads_readArguments_iff.2 ⟨a, as, mid, rfl, ha, has⟩⟩, hrest⟩

end

/-! ### Whole texts -/

theorem parse_eq_ok {text : String} {t : TypeRef} :
    parse text = .ok t ↔ ∃ rest, Reads (readType text.toList) t rest ∧ skipBlank rest = [] := by
  unfold parse finish
  constructor
  · intro h
    split at h
    · cases h
    · rename_i value rest hlt hread
      split at h
      · rename_i hskip
        cases h
        exact ⟨rest, ⟨hlt, hread⟩, hskip⟩
      · cases h
  · rintro ⟨rest, ⟨hlt, hread⟩, hskip⟩
    rw [hread]
    dsimp only
    rw [hskip]

/-- The text is made of the tokens of the reference. -/
def Renders (t : TypeRef) (text : String) : Prop :=
  Spells t.tokens text.toList

theorem renders_display (t : TypeRef) : t.Renders t.display := by
  -- nothing follows the displayed form
  have hnil : Spells [] [] := .nil nofun
  have h := spells_display t hnil
  rw [List.append_nil, List.append_nil] at h
  exact h

/-- What can be read can be written. -/
theorem wellFormed_of_parse {text : String} {t : TypeRef} (h : parse text = .ok t) :
    t.WellFormed := by
  obtain ⟨rest, hreads, -⟩ := parse_eq_ok.1 h
  exact (sound_readType text.toList t rest hreads).1

/-- A reference that can be written is read from every text that is made of its tokens. -/
theorem parse_of_renders {text : String} {t : TypeRef} (hwell : t.WellFormed)
    (h : t.Renders text) : parse text = .ok t := by
  rw [Renders, ← List.append_nil t.tokens] at h
  obtain ⟨rest, hreads, hrest⟩ := complete_readType t hwell next_nil h
  exact parse_eq_ok.2 ⟨rest, hreads, spells_nil_iff.1 hrest⟩

/-- **The reader accepts exactly the language.**  A text is read as a reference if and only if
the reference is well formed and the text is made of its tokens.  The displayed form is made of
them; so the references that can be read at all are those that are read from it. -/
theorem parse_eq_ok_iff :
    (∀ text t, parse text = .ok t ↔ t.WellFormed ∧ t.Renders text) ∧
      ∀ t, t.Renders t.display ∧ (parse t.display = .ok t ↔ ∃ text, parse text = .ok t) := by
  have hparse : ∀ text t, parse text = .ok t ↔ t.WellFormed ∧ t.Renders text := by
    intro text t
    rw [parse_eq_ok]
    constructor
    · rintro ⟨rest, hreads, hskip⟩
      obtain ⟨hwell, hspans⟩ := sound_readType text.toList t rest hreads
      have hspells := hspans [] (spells_nil_iff.2 hskip)
      rw [List.append_nil] at hspells
      exact ⟨hwell, hspells⟩
    · rintro ⟨hwell, hspells⟩
      rw [Renders, ← List.append_nil t.tokens] at hspells
      obtain ⟨rest, hreads, hrest⟩ := complete_readType t hwell next_nil hspells
      exact ⟨rest, hreads, spells_nil_iff.1 hrest⟩
  refine ⟨hparse, fun t => ⟨renders_display t, fun h => ⟨_, h⟩, ?_⟩⟩
  rintro ⟨text, h⟩
  exact (hparse _ t).2 ⟨((hparse text t).1 h).1, renders_display t⟩

end TypeRef

end ModelForge
