/-
Spelling keeps to the vocabulary of the code.

Spelling settles how classes and types are written, and what is imported for them.  It brings in no
names but the parts of the dotted names of these:

* `Naming.Ensures` — a computation comes to something with a property, and the parts of all
  imported names are allowed;
* `Imports.ensures_reference`, `Imports.ensures_render` — a class is written with parts of its own
  name, and a type with those of its classes;
* `Expr.ensures_spell`, `Factory.ensures_spell` and so on — what keeps to the spoken vocabulary is
  spelled in the written one.

The main statement is `File.wordsIn_words`, on the words of a whole file.
-/
import ModelForge.Proofs.CodeVocabulary

namespace ModelForge.Kotlin

/-! ### What computations ensure -/

namespace Naming

variable {α β : Type} {Q : Role → String → Prop} {P : α → Prop} {R : β → Prop}

/-- The parts of what is imported are allowed. -/
def ImportsIn (Q : Role → String → Prop) (i : Imports) : Prop :=
  ∀ n ∈ i.imported, SegmentsIn Q n

/-- As long as the imports are allowed, the computation comes to something with the property, and
they stay so. -/
def Ensures (Q : Role → String → Prop) (P : α → Prop) (r : Naming α) : Prop :=
  ∀ i, ImportsIn Q i → P (r.run i).1 ∧ ImportsIn Q (r.run i).2

theorem ensures_pure {a : α} (h : P a) : Ensures Q P (pure a) :=
  fun _ hi => ⟨h, hi⟩

theorem Ensures.bind {r : Naming α} {f : α → Naming β} (h : Ensures Q P r)
    (hf : ∀ a, P a → Ensures Q R (f a)) : Ensures Q R (r >>= f) := by
  intro i hi
  obtain ⟨ha, hi'⟩ := h i hi
  exact hf _ ha _ hi'

theorem ensures_modify {f : Imports → Imports} (h : ∀ i, ImportsIn Q i → ImportsIn Q (f i)) :
    Ensures Q (fun _ => True) (modify f) :=
  fun i hi => ⟨trivial, h i hi⟩

theorem ensures_mapM {f : α → Naming β} {as : List α} (h : ∀ a ∈ as, Ensures Q R (f a)) :
    Ensures Q (fun bs => ∀ b ∈ bs, R b) (as.mapM f) := by
  induction as with
  | nil => exact ensures_pure nofun
  | cons a as ih =>
    obtain ⟨ha, has⟩ := List.forall_mem_cons.1 h
    rw [List.mapM_cons]
    refine ha.bind fun b hb => (ih has).bind fun bs hbs => ensures_pure ?_
    exact List.forall_mem_cons.2 ⟨hb, hbs⟩

theorem ensures_forM {f : α → Naming PUnit} {as : List α}
    (h : ∀ a ∈ as, Ensures Q (fun _ => True) (f a)) : Ensures Q (fun _ => True) (as.forM f) := by
  induction as with
  | nil => exact ensures_pure trivial
  | cons a as ih =>
    obtain ⟨ha, has⟩ := List.forall_mem_cons.1 h
    exact ha.bind fun _ _ => ih has

theorem ensures_optional {f : α → Naming β} {o : Option α} (h : ∀ a ∈ o, Ensures Q R (f a)) :
    Ensures Q (fun o' => ∀ b ∈ o', R b) (spellOptional f o) := by
  cases o with
  | none => exact ensures_pure nofun
  | some a =>
    refine (h a rfl).bind fun b hb => ensures_pure ?_
    rintro _ ⟨⟩
    exact hb

end Naming

open Naming

variable {Q : Role → String → Prop}

/-! ### Classes and types -/

namespace Imports

theorem importsIn_claim {i : Imports} (h : ImportsIn Q i) (name owner : String) :
    ImportsIn Q (i.claim name owner) := by
  intro n hn
  rw [imported_claim] at hn
  exact h n hn

theorem importsIn_add {i : Imports} (h : ImportsIn Q i) {name : String}
    (hname : SegmentsIn Q name) : ImportsIn Q (i.add name) := by
  intro n hn
  rcases (mem_imported_add i name n).1 hn with hmem | rfl
  · exact h n hmem
  · exact hname

theorem ensures_declare (t : TypeName) : Ensures Q (fun _ => True) (declare t) := by
  unfold declare
  split
  · exact ensures_pure trivial
  · exact ensures_modify fun _ hi => importsIn_claim hi _ _

theorem ensures_shadow (t : TypeName) : Ensures Q (fun _ => True) (shadow t) :=
  ensures_modify fun _ hi => importsIn_claim hi _ _

theorem ensures_member {package name : String} (h : SegmentsIn Q (package ++ "." ++ name)) :
    Ensures Q (fun _ => True) (member package name) := by
  refine ensures_modify fun i hi => ?_
  split
  · exact hi
  · exact importsIn_add hi h

/-- A class is written with the parts of its dotted name. -/
theorem segmentsIn_display {c : ClassUse} {t : TypeName} (h : c.Refers t)
    (ht : SegmentsIn Q t.canonicalName) : SegmentsIn Q c.display := by
  obtain ⟨hpackage, hnames⟩ := h
  unfold ClassUse.display
  rw [hpackage, hnames]
  by_cases hfull : c.full = true
  · simpa [hfull, TypeName.canonicalName] using ht
  · by_cases hempty : t.package = ""
    · simpa [hfull, TypeName.canonicalName, qualify, hempty] using ht
    · -- an imported class is written without its package
      intro s hs
      refine ht s ?_
      simp only [hfull, Bool.false_eq_true, if_false] at hs
      simp only [TypeName.canonicalName, qualify, hempty, if_false, dotted_append]
      exact List.mem_append_right _ hs

/-- What is imported for a class is a part of its dotted name. -/
theorem segmentsIn_topLevelName {t : TypeName} {first : String} {others : List String}
    (hnames : t.simpleNames = first :: others) (hpackage : t.package ≠ "")
    (ht : SegmentsIn Q t.canonicalName) : SegmentsIn Q t.topLevelName := by
  intro s hs
  refine ht s ?_
  simp only [TypeName.topLevelName, TypeName.canonicalName, qualify, hnames, hpackage, if_false,
    dotted_append, List.headD_cons, List.mem_append] at hs ⊢
  rcases hs with hs | hs
  · exact .inl hs
  · exact .inr (dotted_subset_intercalate first others hs)

theorem ensures_reference {t : TypeName} (ht : SegmentsIn Q t.canonicalName) :
    Ensures Q (fun c => SegmentsIn Q c.display) (reference t) := by
  intro i hi
  refine ⟨segmentsIn_display (gives_reference t i) ht, ?_⟩
  rcases unclaimed_or_claims t with hnone | ⟨first, others, hnames, hpackage⟩
  · rw [run_reference_unclaimed hnone]
    exact hi
  · rw [run_reference hnames hpackage]
    cases i.claimed.lookup first with
    | some owner => exact hi
    | none =>
      -- the simple name is free, so it is claimed; a class of the package needs no import
      have hclaimed := importsIn_claim hi first t.topLevelName
      dsimp only
      split
      · exact hclaimed
      · exact importsIn_add hclaimed (segmentsIn_topLevelName hnames hpackage ht)

mutual

theorem ensures_render : ∀ t : TypeName, (∀ n ∈ t.classNames, SegmentsIn Q n) →
    Ensures Q (fun u => WordsIn Q u.words) (render t)
  | .mk package simpleNames arguments nullable, h => by
    obtain ⟨hown, harguments⟩ := List.forall_mem_cons.1 h
    rw [render]
    refine (ensures_reference hown).bind fun use huse => ?_
    refine (ensures_renderList arguments harguments).bind fun as has => ensures_pure ?_
    cases nullable <;> simp [TypeUse.words, huse.words, has.1]

theorem ensures_renderArgument : ∀ a : Option TypeName,
    (∀ t ∈ TypeName.classesOf a, SegmentsIn Q t.canonicalName) →
      Ensures Q (fun u => WordsIn Q (TypeUse.wordsOf u)) (renderArgument a)
  | none, _ => by
    rw [renderArgument]
    exact ensures_pure (by simp [TypeUse.wordsOf])
  | some t, h => by
    rw [renderArgument]
    refine (ensures_render t (List.forall_mem_map.2 h)).bind fun u hu => ensures_pure ?_
    exact hu

theorem ensures_renderList : ∀ as : List (Option TypeName),
    (∀ n ∈ (TypeName.classesOfList as).map TypeName.canonicalName, SegmentsIn Q n) →
      Ensures Q (fun us => WordsIn Q (TypeUse.wordsOfList us) ∧ WordsIn Q (TypeUse.wordsOfRest us))
        (renderList as)
  | [], _ => by
    rw [renderList]
    exact ensures_pure (by simp [TypeUse.wordsOfList, TypeUse.wordsOfRest])
  | a :: as, h => by
    rw [TypeName.classesOfList, List.map_append, List.forall_mem_append] at h
    rw [renderList]
    refine (ensures_renderArgument a (List.forall_mem_map.1 h.1)).bind fun u hu => ?_
    refine (ensures_renderList as h.2).bind fun us hus => ensures_pure ?_
    simp [TypeUse.wordsOfList, TypeUse.wordsOfRest, hu, hus.2]

end

end Imports

open Imports

/-! ### Expressions and declarations -/

/-- The functions that are imported for expressions and failure branches. -/
structure MembersIn (Q : Role → String → Prop) : Prop where
  validate : SegmentsIn Q (runtimePackage ++ "." ++ "validate")
  toNonEmptyList : SegmentsIn Q (arrowPackage ++ "." ++ "toNonEmptyListOrNull")

section Spelling

variable (hmembers : MembersIn Q)

include hmembers

theorem Expr.ensures_spell (e : Expr TypeName) (h : AllIn (spoken Q) e.pieces) :
    Ensures Q (fun w => AllIn (written Q) w.pieces) e.spell := by
  induction e with
  | parameter name | held name => exact ensures_pure (by simpa [pieces] using h)
  | it | null => exact ensures_pure (by simp [pieces])
  | object c =>
    have hc : SegmentsIn Q c.canonicalName := by simpa [pieces] using h
    exact (ensures_reference hc).bind fun c' hc => ensures_pure (by simpa [pieces] using hc)
  | wrap c inner ih | right c inner ih =>
    obtain ⟨hc, hinner⟩ : SegmentsIn Q c.canonicalName ∧ AllIn (spoken Q) inner.pieces := by
      simpa [pieces] using h
    refine (ensures_reference hc).bind fun c' hc => (ih hinner).bind fun w hw => ensures_pure ?_
    simp [pieces, hc, hw]
  | make c nullable raw ih =>
    obtain ⟨hc, hraw⟩ : SegmentsIn Q c.canonicalName ∧ AllIn (spoken Q) raw.pieces := by
      cases nullable <;> simpa [pieces] using h
    refine (ensures_reference hc).bind fun c' hc => (ih hraw).bind fun w hw => ensures_pure ?_
    cases nullable <;> simp [pieces, hc, hw]
  | letIt first second ihfirst ihsecond | flatMap first second ihfirst ihsecond
  | orElse first second ihfirst ihsecond =>
    obtain ⟨hfirst, hsecond⟩ : AllIn (spoken Q) first.pieces ∧ AllIn (spoken Q) second.pieces := by
      simpa [pieces] using h
    refine (ihfirst hfirst).bind fun w hw => (ihsecond hsecond).bind fun w' hw' =>
      ensures_pure ?_
    simp [pieces, hw, hw']
  | map receiver safe name block ihreceiver ihblock =>
    obtain ⟨hreceiver, hname, hblock⟩ : AllIn (spoken Q) receiver.pieces ∧
        (∀ n ∈ name, Q .held n) ∧ AllIn (spoken Q) block.pieces := by
      cases name <;> simpa [pieces, blockHeadPieces] using h
    refine (ihreceiver hreceiver).bind fun w hw => (ihblock hblock).bind fun w' hw' =>
      ensures_pure ?_
    cases name with
    | none => simp [pieces, blockHeadPieces, hw, hw']
    | some n => simp [pieces, blockHeadPieces, hw, hw', hname n rfl]
  | fold receiver safe absent present ihreceiver ihabsent ihpresent =>
    obtain ⟨hreceiver, habsent, hpresent⟩ : AllIn (spoken Q) receiver.pieces ∧
        AllIn (spoken Q) absent.pieces ∧ AllIn (spoken Q) present.pieces := by
      simpa [pieces] using h
    refine (ihreceiver hreceiver).bind fun w hw => (ihabsent habsent).bind fun w' hw' =>
      (ihpresent hpresent).bind fun w'' hw'' => ensures_pure ?_
    simp [pieces, hw, hw', hw'']
  | validate receiver safe ih =>
    have hreceiver : AllIn (spoken Q) receiver.pieces := by simpa [pieces] using h
    refine (ensures_member hmembers.validate).bind fun _ _ => (ih hreceiver).bind fun w hw =>
      ensures_pure ?_
    simp [pieces, hw]
  | build receiver safe ih | content receiver ih =>
    have hreceiver : AllIn (spoken Q) receiver.pieces := by simpa [pieces] using h
    exact (ih hreceiver).bind fun w hw => ensures_pure (by simp [pieces, hw])

theorem Local.ensures_spell (l : Local TypeName TypeName) (h : AllIn (spoken Q) l.pieces) :
    Ensures Q (fun w => AllIn (written Q) w.pieces) l.spell := by
  obtain ⟨name, type, value⟩ := l
  obtain ⟨hname, htype, hvalue⟩ : Q .held name ∧ (∀ t ∈ type, ∀ n ∈ t.classNames, SegmentsIn Q n) ∧
      AllIn (spoken Q) value.pieces := by
    cases type <;> simpa [pieces] using h
  have hspelled : Ensures Q (fun t => ∀ u ∈ t, WordsIn Q u.words) (spellType type) := by
    cases type with
    | none => exact ensures_pure (by simp)
    | some type => exact (ensures_render type (htype type rfl)).bind fun u hu =>
        ensures_pure (by simpa using hu)
  refine (value.ensures_spell hmembers hvalue).bind fun w hw => hspelled.bind fun t ht =>
    ensures_pure ?_
  cases t with
  | none => simp [pieces, hname, hw]
  | some u => simp [pieces, hname, hw, ht u rfl]

theorem Argument.ensures_spell (a : Argument TypeName) (h : AllIn (spoken Q) a.pieces) :
    Ensures Q (fun w => AllIn (written Q) w.pieces) a.spell := by
  obtain ⟨hname, hvalue⟩ : Q .property a.name ∧ AllIn (spoken Q) a.value.pieces := by
    simpa [pieces] using h
  refine (a.value.ensures_spell hmembers hvalue).bind fun w hw => ensures_pure ?_
  simp [pieces, hname, hw]

theorem Condition.ensures_spell (c : Condition TypeName) (h : AllIn (spoken Q) c.result.pieces) :
    Ensures Q (fun w => AllIn (written Q) w.result.pieces) c.spell :=
  (c.result.ensures_spell hmembers h).bind fun _ hw => ensures_pure hw

theorem FailureCase.ensures_spell (c : FailureCase TypeName) (h : c.In (spoken Q)) :
    Ensures Q (fun w => w.In (written Q)) c.spell :=
  (c.condition.ensures_spell hmembers h.result).bind fun _ hresult =>
    (c.value.ensures_spell hmembers h.value).bind fun _ hvalue =>
      ensures_pure ⟨hresult, h.variant, hvalue⟩

theorem FailureBranch.ensures_spell (b : FailureBranch TypeName TypeName) (h : b.In (spoken Q)) :
    Ensures Q (fun w => w.In (written Q)) b.spell := by
  refine (ensures_mapM fun c hc => c.ensures_spell hmembers (h.conditions c hc)).bind
    fun conditions hconditions => ?_
  refine (ensures_reference h.variants).bind fun variants hvariants => ?_
  refine (ensures_render b.union h.union).bind fun union hunion => ?_
  refine (ensures_member hmembers.toNonEmptyList).bind fun _ _ => ?_
  refine (ensures_mapM fun c hc => c.ensures_spell hmembers (h.cases c hc)).bind
    fun cases hcases => ensures_pure ⟨hconditions, hvariants, hunion, hcases⟩

omit hmembers in
theorem Parameter.ensures_spell (p : Parameter TypeName)
    (h : AllIn (spoken Q) (p.pieces : List (Piece TypeName TypeName))) :
    Ensures Q (fun w => AllIn (written Q) (w.pieces : List (Piece ClassUse TypeUse))) p.spell := by
  obtain ⟨hname, htype⟩ : Q .property p.name ∧ ∀ n ∈ p.type.classNames, SegmentsIn Q n := by
    simpa [pieces] using h
  refine (ensures_render p.type htype).bind fun t ht => ensures_pure ?_
  simp [pieces, hname, ht]

omit hmembers in
theorem Receiver.ensures_spell (r : Receiver TypeName)
    (h : AllIn (spoken Q) (r.pieces : List (Piece TypeName TypeName))) :
    Ensures Q (fun w => AllIn (written Q) (w.pieces : List (Piece ClassUse TypeUse))) r.spell := by
  obtain ⟨howner, hcompanion⟩ : SegmentsIn Q r.owner.canonicalName ∧
      Q .companion r.companion := by
    simpa [pieces] using h
  refine (ensures_reference howner).bind fun c hc => ensures_pure ?_
  simp [pieces, hcompanion, hc]

theorem Factory.ensures_spell (f : Factory TypeName TypeName) (h : f.In (spoken Q)) :
    Ensures Q (fun w => w.In (written Q)) f.spell := by
  refine (ensures_optional fun r hr => r.ensures_spell (h.receiver r hr)).bind
    fun receiver hreceiver => ?_
  refine (ensures_mapM fun p hp => p.ensures_spell (h.parameters p hp)).bind
    fun parameters hparameters => ?_
  refine (ensures_render f.result h.result).bind fun result hresult => ?_
  refine (ensures_reference h.either).bind fun either heither => ?_
  refine (ensures_mapM fun l hl => l.ensures_spell hmembers (h.locals l hl)).bind
    fun locals hlocals => ?_
  refine (ensures_reference h.constructed).bind fun constructed hconstructed => ?_
  refine (ensures_mapM fun a ha => a.ensures_spell hmembers (h.arguments a ha)).bind
    fun arguments harguments => ?_
  refine (ensures_optional fun b hb => b.ensures_spell hmembers (h.failure b hb)).bind
    fun failure hfailure => ensures_pure ?_
  exact ⟨hreceiver, h.name, hparameters, hresult, heither, hlocals, hconstructed, harguments,
    hfailure⟩

omit hmembers in
theorem Variant.ensures_spell (v : Variant TypeName TypeName)
    (h : AllIn (spoken Q) v.pieces) :
    Ensures Q (fun w => AllIn (written Q) w.pieces) v.spell := by
  obtain ⟨hname, hpayload, hparent⟩ : Q .variant v.name ∧
      (∀ n ∈ v.payload.classNames, SegmentsIn Q n) ∧ SegmentsIn Q v.parent.canonicalName := by
    simpa [pieces] using h
  refine (ensures_reference hparent).bind fun parent hparent => ?_
  refine (ensures_render v.payload hpayload).bind fun payload hpayload => ensures_pure ?_
  simp [pieces, hname, hparent, hpayload]

omit hmembers in
theorem FailureUnion.ensures_spell (u : FailureUnion TypeName TypeName) (h : u.In (spoken Q)) :
    Ensures Q (fun w => w.In (written Q)) u.spell := by
  refine (ensures_declare u.name).bind fun _ _ => ?_
  have hdeclared : Ensures Q (fun _ => True) (u.required.forM declare) := by
    cases u.required with
    | none => exact ensures_pure trivial
    | some required => exact ensures_declare required
  refine hdeclared.bind fun _ _ => (ensures_reference h.name).bind fun name hname => ?_
  refine (ensures_forM fun v _ => ensures_shadow _).bind fun _ _ => ?_
  refine (ensures_mapM fun v hv => v.ensures_spell (h.variants v hv)).bind
    fun variants hvariants => ?_
  refine (ensures_optional fun t ht => ensures_reference (h.required t ht)).bind
    fun required hrequired => ensures_pure ⟨hname, hvariants, hrequired⟩

theorem DataClass.ensures_spell (d : DataClass TypeName TypeName) (h : d.In (spoken Q)) :
    Ensures Q (fun w => w.In (written Q)) d.spell := by
  refine (ensures_declare d.name).bind fun _ _ => ?_
  refine (ensures_mapM fun p hp => p.ensures_spell (h.fields p hp)).bind fun fields hfields => ?_
  refine (ensures_reference h.name).bind fun name hname => ?_
  refine (ensures_mapM fun f hf => f.ensures_spell hmembers (h.factories f hf)).bind
    fun factories hfactories => ensures_pure ⟨hname, hfields, hfactories⟩

theorem BuildStep.ensures_spell (s : BuildStep TypeName)
    (h : BuildStep.In (spoken Q) s) :
    Ensures Q (fun w => BuildStep.In (written Q) w) s.spell :=
  (s.source.ensures_spell hmembers h.source).bind fun _ hw => ensures_pure ⟨h.name, hw⟩

theorem BuildBody.ensures_spell (body : BuildBody TypeName) (h : body.In (spoken Q)) :
    Ensures Q (fun w => w.In (written Q)) body.spell := by
  cases body with
  | present wrapper => exact (ensures_reference h).bind fun _ hw => ensures_pure hw
  | chain steps arguments =>
    refine (ensures_mapM fun s hs => s.ensures_spell hmembers (h.1 s hs)).bind fun _ hsteps => ?_
    exact (ensures_mapM fun a ha => a.ensures_spell hmembers (h.2 a ha)).bind
      fun _ harguments => ensures_pure ⟨hsteps, harguments⟩

theorem Builder.ensures_spell (b : Builder TypeName TypeName) (h : b.In (spoken Q)) :
    Ensures Q (fun w => w.In (written Q)) b.spell := by
  refine (ensures_declare b.name).bind fun _ _ => ?_
  refine (ensures_mapM fun p hp => p.ensures_spell (h.staged p hp)).bind fun staged hstaged => ?_
  refine (ensures_reference h.name).bind fun name hname => ?_
  refine (ensures_reference h.params).bind fun params hparams => ?_
  refine (ensures_render b.result h.result).bind fun result hresult => ?_
  refine (b.body.ensures_spell hmembers h.body).bind fun body hbody => ?_
  refine (ensures_optional fun t ht => ensures_reference (h.absent t ht)).bind
    fun absent habsent => ensures_pure ⟨hname, hstaged, hparams, hresult, hbody, habsent⟩

omit hmembers in
theorem OnlyExtension.ensures_spell (f : OnlyExtension TypeName TypeName)
    (h : f.In (spoken Q)) : Ensures Q (fun w => w.In (written Q)) f.spell := by
  refine (f.receiver.ensures_spell h.receiver).bind fun receiver hreceiver => ?_
  refine (ensures_reference h.absent).bind fun absent habsent => ?_
  have hparameter : ∀ p ∈ f.parameters,
      Ensures Q (fun w => Q .property w.name ∧ WordsIn Q w.type.words) p.spell := by
    intro p hp
    obtain ⟨hname, htype⟩ := h.parameters p hp
    exact (ensures_render p.type htype).bind fun t ht => ensures_pure ⟨hname, ht⟩
  exact (ensures_mapM hparameter).bind fun parameters hparameters =>
    ensures_pure ⟨hreceiver, habsent, hparameters⟩

/-- What keeps to the spoken vocabulary is spelled in the written one. -/
theorem Content.ensures_spell (c : Content TypeName TypeName) (h : c.In (spoken Q)) :
    Ensures Q (fun w => w.In (written Q)) c.spell := by
  cases c with
  | failureUnion u =>
    exact (FailureUnion.ensures_spell u h).bind fun _ hw => ensures_pure hw
  | dataClass d =>
    exact (DataClass.ensures_spell hmembers d h).bind fun _ hw => ensures_pure hw
  | builder b => exact (Builder.ensures_spell hmembers b h).bind fun _ hw => ensures_pure hw
  | factory f => exact (Factory.ensures_spell hmembers f h).bind fun _ hw => ensures_pure hw
  | only f => exact (OnlyExtension.ensures_spell f h).bind fun _ hw => ensures_pure hw

end Spelling

/-! ### The words of a file -/

theorem Piece.In.wordsIn {p : Piece ClassUse TypeUse} (h : p.In (written Q)) :
    WordsIn Q p.words := by
  cases p with
  | code text marks hmarks => simp [words]
  | name role n =>
    intro role' n' hn
    obtain ⟨rfl, rfl⟩ : role' = role ∧ n' = n := by simpa [words] using hn
    exact h
  | reference c => exact SegmentsIn.words h
  | type t => exact h

theorem wordsIn_flatMap {α : Type} {f : α → List Word} {as : List α}
    (h : ∀ a ∈ as, WordsIn Q (f a)) : WordsIn Q (as.flatMap f) := by
  intro role n hn
  obtain ⟨a, ha, hmem⟩ := List.mem_flatMap.1 hn
  exact h a ha role n hmem

/-- A row of allowed strokes has allowed names only. -/
theorem wordsIn_writeAll {ss : List (Stroke ClassUse TypeUse)} (h : StrokesIn (written Q) ss)
    (depth : Nat) : ∀ r ∈ writeAll depth ss, WordsIn Q r.words := by
  induction ss generalizing depth with
  | nil => exact nofun
  | cons s ss ih =>
    obtain ⟨hs, hss⟩ := List.forall_mem_cons.1 h
    have hrow : ∀ r ∈ s.rows depth, AllIn (written Q) r.pieces := by
      cases s <;> simp_all [Stroke.rows]
    rw [writeAll, List.forall_mem_append]
    refine ⟨fun r hr => ?_, ih hss _⟩
    unfold Row.words
    split
    · simp
    · have hwords : WordsIn Q (r.pieces.flatMap Piece.words) :=
        wordsIn_flatMap fun p hp => Piece.In.wordsIn (hrow r hr p hp)
      simp [hwords]

/-- **The names in a file are those of its vocabulary.**  If what the file declares keeps to a
vocabulary, and the package and the functions that may be imported do, then so does every name
in the file. -/
theorem File.wordsIn_words {f : File} (hmembers : MembersIn Q)
    (hpackage : SegmentsIn Q f.package) (hcontent : f.content.In (spoken Q)) :
    WordsIn Q f.words := by
  obtain ⟨hspelled, himports⟩ : f.spelled.1.In (written Q) ∧ ImportsIn Q f.spelled.2 :=
    f.content.ensures_spell hmembers hcontent (.start f.package) nofun
  have hpackageWords : WordsIn Q (packageWords f.package) := by
    unfold packageWords
    split
    · simp
    · simp [hpackage.words]
  have himportWords : WordsIn Q (importWords f.spelled.2.lines) := by
    unfold importWords
    split
    · simp
    · have hlines : ∀ n ∈ f.spelled.2.lines,
          WordsIn Q (.code "import " :: (dottedWords n ++ [.code "\n"])) := by
        intro n hn
        have hsegments : SegmentsIn Q n := himports n (mem_lines.1 hn)
        simp [hsegments.words]
      simp [wordsIn_flatMap hlines]
  have hrows := wordsIn_flatMap (wordsIn_writeAll (Content.In.strokes hspelled) 0)
  have hall := And.intro hpackageWords (And.intro himportWords hrows)
  simpa [words] using hall

end ModelForge.Kotlin
