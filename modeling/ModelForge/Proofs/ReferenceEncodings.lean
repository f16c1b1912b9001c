/-
The ways to write a reference in a document.

A reference can be written as a text or as an object, and so can every type among its arguments,
independently at each level; a star and an argument with a variance are texts.  All of these are
read as the same reference:

* `TypeRef.Encodes` — the values that write a reference, whatever is chosen at each level;
* `TypeForm.collect?_perm` — the members of an object may stand in any order;
* `TypeArgument.parse_of_renders` — the reader of arguments accepts what the reader of references
  accepts, and reads it as invariant, so that types may be called `in` or `out`;
* `TypeRef.ofJson_of_encodes` — every such value is decoded as the reference.

The main statement is `TypeRef.decode_of_encodes`.  A document is read down to a depth only, and an
object with its arguments takes two levels: `TypeRef.decode_towerObject_ne` is a reference that is
written too deeply.
-/
import Mathlib.Data.List.Nodup
import ModelForge.Proofs.AnnotationRoundTrip
import ModelForge.Proofs.CompactText

namespace ModelForge

/-! ### Written arguments -/

namespace TypeArgument

/-- The text is made of the tokens of the argument. -/
def Renders (a : TypeArgument) (text : String) : Prop :=
  Token.Spells (TypeRef.argumentTokens a) text.toList

theorem renders_display (a : TypeArgument) : a.Renders (TypeRef.displayArgument a) := by
  have hnil : Token.Spells [] [] := .nil nofun
  have h := TypeRef.spells_displayArgument a hnil
  rw [List.append_nil, List.append_nil] at h
  exact h

/-- An argument that can be written is read from every text that is made of its tokens. -/
theorem parse_of_renders {a : TypeArgument} {text : String} (hwell : TypeRef.WellFormedArgument a)
    (h : a.Renders text) : parse text = .ok a := by
  rw [Renders, ← List.append_nil (TypeRef.argumentTokens a)] at h
  obtain ⟨rest, ⟨hlt, hread⟩, hrest⟩ := TypeRef.complete_readArgument a hwell TypeRef.next_nil h
  unfold parse TypeRef.finish
  rw [hread]
  dsimp only
  rw [Token.spells_nil_iff.1 hrest]

end TypeArgument

/-! ### Encodings -/

namespace TypeRef

mutual

/-- The value writes the reference: as a text, or as an object with name, arguments and
nullability in any order.  What says that there are no arguments, or that the reference is not
nullable, may be left out. -/
inductive Encodes : Json → TypeRef → Prop
  | text {s : String} {t : TypeRef} (h : t.Renders s) : Encodes (.string s) t
  | object {name : String} {as : List TypeArgument} {nullable : Bool} {items : List Json}
    {arguments flag members : List (String × Json)} (hitems : EncodesList items as)
    (harguments : arguments = [("arguments", .array items)] ∨ as = [] ∧ arguments = [])
    (hflag : flag = [("nullable", .bool nullable)] ∨ nullable = false ∧ flag = [])
    (hmembers : members.Perm (("name", .string name) :: (arguments ++ flag))) :
    Encodes (.object members) (.mk name as nullable)

/-- The value writes the argument: as a text, or as the object of an invariant type. -/
inductive EncodesArgument : Json → TypeArgument → Prop
  | text {s : String} {a : TypeArgument} (h : a.Renders s) : EncodesArgument (.string s) a
  | object {members : List (String × Json)} {t : TypeRef} (h : Encodes (.object members) t) :
    EncodesArgument (.object members) (.type .invariant t)

/-- The values write the arguments. -/
inductive EncodesList : List Json → List TypeArgument → Prop
  | nil : EncodesList [] []
  | cons {item : Json} {items : List Json} {a : TypeArgument} {as : List TypeArgument}
    (hitem : EncodesArgument item a) (hitems : EncodesList items as) :
    EncodesList (item :: items) (a :: as)

end

/-- An invariant argument may be written in every way in which its type may be. -/
theorem Encodes.argument {v : Json} {t : TypeRef} (h : Encodes v t) :
    EncodesArgument v (.type .invariant t) := by
  cases h with
  | text h => exact .text h
  | object hitems harguments hflag hmembers =>
    exact .object (.object hitems harguments hflag hmembers)

end TypeRef

/-! ### The order of the members -/

namespace TypeForm

/-- The text of a value that is one. -/
def textOf? : Json → Option String
  | .string s => some s
  | _ => none

/-- The boolean of a value that is one. -/
def flagOf? : Json → Option Bool
  | .bool b => some b
  | _ => none

/-- The forms of the items of a value that is an array. -/
def formsOf? : Json → Option (List TypeForm)
  | .array items => ofItems? items
  | _ => none

/-- The fields with one more, unless it has been met before. -/
def fill {α : Type} (get : Fields → Option α) (put : α → Fields → Fields) (found : Option α)
    (f : Fields) : Option Fields :=
  if (get f).isSome then none else found.map fun a => put a f

/-- Two fields that do not touch each other may be met in either order. -/
theorem fill_comm {α β : Type} {get : Fields → Option α} {put : α → Fields → Fields}
    {get' : Fields → Option β} {put' : β → Fields → Fields} (hget : ∀ b f, get (put' b f) = get f)
    (hget' : ∀ a f, get' (put a f) = get' f) (hput : ∀ a b f, put a (put' b f) = put' b (put a f))
    (found : Option α) (found' : Option β) (f : Fields) :
    (fill get put found f).bind (fill get' put' found') =
      (fill get' put' found' f).bind (fill get put found) := by
  unfold fill
  by_cases h : (get f).isSome <;> by_cases h' : (get' f).isSome <;> cases found <;> cases found' <;>
    simp [h, h', hget, hget', hput]

/-- Fills the name. -/
def fillName (v : Json) : Fields → Option Fields :=
  fill (·.name) (fun s f => { f with name := some s }) (textOf? v)

/-- Fills the arguments. -/
def fillArguments (v : Json) : Fields → Option Fields :=
  fill (·.arguments) (fun forms f => { f with arguments := some forms }) (formsOf? v)

/-- Fills the nullability. -/
def fillNullable (v : Json) : Fields → Option Fields :=
  fill (·.nullable) (fun b f => { f with nullable := some b }) (flagOf? v)

theorem set?_name (f : Fields) (v : Json) : set? f "name" v = fillName v f := by
  cases v <;> simp [set?, fillName, fill, textOf?]

theorem set?_arguments (f : Fields) (v : Json) : set? f "arguments" v = fillArguments v f := by
  cases v <;> simp [set?, fillArguments, fill, formsOf?]

theorem set?_nullable (f : Fields) (v : Json) : set? f "nullable" v = fillNullable v f := by
  cases v <;> simp [set?, fillNullable, fill, flagOf?]

/-- The name is that of a field. -/
def IsKnown (name : String) : Prop :=
  name = "name" ∨ name = "arguments" ∨ name = "nullable"

theorem set?_of_not_known {name : String} (h : ¬ IsKnown name) (f : Fields) (v : Json) :
    set? f name v = some f := by
  obtain ⟨hname, harguments, hnullable⟩ : name ≠ "name" ∧ name ≠ "arguments" ∧
      name ≠ "nullable" := by
    simpa only [IsKnown, not_or] using h
  cases v <;> simp [set?, hname, harguments, hnullable]

theorem fillName_arguments (f : Fields) (v w : Json) :
    (fillName v f).bind (fillArguments w) = (fillArguments w f).bind (fillName v) := by
  apply fill_comm <;> intros <;> rfl

theorem fillName_nullable (f : Fields) (v w : Json) :
    (fillName v f).bind (fillNullable w) = (fillNullable w f).bind (fillName v) := by
  apply fill_comm <;> intros <;> rfl

theorem fillArguments_nullable (f : Fields) (v w : Json) :
    (fillArguments v f).bind (fillNullable w) = (fillNullable w f).bind (fillArguments v) := by
  apply fill_comm <;> intros <;> rfl

/-- Fields of different names may be met in either order. -/
theorem set?_comm {name other : String} (h : name ≠ other) (f : Fields) (v w : Json) :
    ((set? f name v).bind fun f => set? f other w) =
      (set? f other w).bind fun f => set? f name v := by
  by_cases hname : IsKnown name
  · by_cases hother : IsKnown other
    · rcases hname with rfl | rfl | rfl <;> rcases hother with rfl | rfl | rfl <;>
        simp only [set?_name, set?_arguments, set?_nullable]
      · exact absurd rfl h
      · exact fillName_arguments f v w
      · exact fillName_nullable f v w
      · exact (fillName_arguments f w v).symm
      · exact absurd rfl h
      · exact fillArguments_nullable f v w
      · exact (fillName_nullable f w v).symm
      · exact (fillArguments_nullable f w v).symm
      · exact absurd rfl h
    · simp [set?_of_not_known hother]
  · simp [set?_of_not_known hname]

theorem collect?_cons (f : Fields) (m : String × Json) (members : List (String × Json)) :
    collect? f (m :: members) = (set? f m.1 m.2).bind fun f => collect? f members := by
  rw [collect?]
  cases set? f m.1 m.2 <;> rfl

/-- The members of an object that repeats no name may stand in any order. -/
theorem collect?_perm {members members' : List (String × Json)} (h : members.Perm members') :
    (members.map Prod.fst).Nodup → ∀ f, collect? f members = collect? f members' := by
  induction h with
  | nil => exact fun _ _ => rfl
  | cons m _ ih =>
    intro hnames f
    rw [collect?_cons, collect?_cons]
    exact congrArg _ (funext (ih (List.nodup_cons.1 hnames).2))
  | swap m m' members =>
    intro hnames f
    have hne : m.1 ≠ m'.1 := fun heq => (List.nodup_cons.1 hnames).1 (heq ▸ List.mem_cons_self)
    simp only [collect?_cons]
    rw [← Option.bind_assoc, ← Option.bind_assoc, set?_comm hne]
  | trans hperm _ ih ih' =>
    intro hnames f
    rw [ih hnames, ih' ((hperm.map Prod.fst).nodup_iff.1 hnames)]

end TypeForm

/-! ### Decoding -/

namespace TypeRef

open TypeForm

/-- The names of the members of an object that writes a reference are different. -/
theorem nodup_names {name : String} {nullable : Bool} {as : List TypeArgument} {items : List Json}
    {arguments flag : List (String × Json)}
    (harguments : arguments = [("arguments", .array items)] ∨ as = [] ∧ arguments = [])
    (hflag : flag = [("nullable", .bool nullable)] ∨ nullable = false ∧ flag = []) :
    ((("name", Json.string name) :: (arguments ++ flag)).map Prod.fst).Nodup := by
  rcases harguments with rfl | ⟨-, rfl⟩ <;> rcases hflag with rfl | ⟨-, rfl⟩ <;> simp

/-- The form of an object that writes a reference, from the forms of its arguments. -/
theorem ofJson?_object {name : String} {nullable : Bool} {as : List TypeArgument}
    {items : List Json} {arguments flag members : List (String × Json)} {forms : List TypeForm}
    (harguments : arguments = [("arguments", .array items)] ∨ as = [] ∧ arguments = [])
    (hflag : flag = [("nullable", .bool nullable)] ∨ nullable = false ∧ flag = [])
    (hmembers : members.Perm (("name", .string name) :: (arguments ++ flag)))
    (hforms : ofItems? items = some forms) (hnil : as = [] → forms = []) :
    TypeForm.ofJson? (.object members) = some (.structured name forms nullable) := by
  have hnames : ((("name", Json.string name) :: (arguments ++ flag)).map Prod.fst).Nodup :=
    nodup_names harguments hflag
  rw [TypeForm.ofJson?, collect?_perm hmembers ((hmembers.map Prod.fst).nodup_iff.2 hnames)]
  rcases harguments with rfl | ⟨has, rfl⟩
  · rcases hflag with rfl | ⟨rfl, rfl⟩ <;>
      simp [collect?_cons, collect?, set?_name, set?_arguments, set?_nullable, fillName,
        fillArguments, fillNullable, fill, textOf?, formsOf?, flagOf?, hforms, Fields.complete?]
  · obtain rfl := hnil has
    rcases hflag with rfl | ⟨rfl, rfl⟩ <;>
      simp [collect?_cons, collect?, set?_name, set?_nullable, fillName, fillNullable, fill,
        textOf?, flagOf?, Fields.complete?]

mutual

/-- The form of an object that writes a reference is read as the reference. -/
theorem form_of_encodes : ∀ (t : TypeRef) {members : List (String × Json)}, t.WellFormed →
    Encodes (.object members) t → ∃ forms,
      TypeForm.ofJson? (.object members) = some (.structured t.name forms t.nullable) ∧
        toArguments forms = .ok t.arguments
  | .mk name as nullable, members, hwell, .object hitems harguments hflag hmembers => by
    obtain ⟨forms, hforms, hread⟩ := forms_of_encodes as hwell.2 hitems
    refine ⟨forms, ofJson?_object harguments hflag hmembers hforms fun has => ?_, hread⟩
    subst has
    cases hitems
    exact (Option.some.inj hforms).symm

/-- The form of a value that writes an argument is read as the argument. -/
theorem form_of_encodesArgument : ∀ (a : TypeArgument) {v : Json}, WellFormedArgument a →
    EncodesArgument v a → ∃ form, TypeForm.ofJson? v = some form ∧ toArgument form = .ok a
  | _, _, hwell, .text h => ⟨_, rfl, TypeArgument.parse_of_renders hwell h⟩
  | .type .invariant (.mk name as nullable), _, hwell, .object h => by
    obtain ⟨forms, hform, hread⟩ := form_of_encodes (.mk name as nullable) hwell.2 h
    refine ⟨_, hform, ?_⟩
    rw [toArgument, hread]
    rfl

/-- The forms of the values that write arguments are read as the arguments. -/
theorem forms_of_encodes : ∀ (as : List TypeArgument) {items : List Json}, WellFormedList as →
    EncodesList items as → ∃ forms, ofItems? items = some forms ∧ toArguments forms = .ok as
  | [], _, _, .nil => ⟨[], rfl, rfl⟩
  | a :: as, _, hwell, .cons hitem hitems => by
    obtain ⟨form, hform, hread⟩ := form_of_encodesArgument a hwell.1 hitem
    obtain ⟨forms, hforms, hreads⟩ := forms_of_encodes as hwell.2 hitems
    refine ⟨form :: forms, ?_, ?_⟩
    · rw [ofItems?, hform, hforms]
    · rw [toArguments, hread, hreads]
      rfl

end

mutual

/-- All that an encoding consists of is written as what it is. -/
theorem isExact_of_encodes : ∀ (t : TypeRef) {v : Json}, Encodes v t → v.isExact = true
  | _, _, .text _ => rfl
  | .mk name as nullable, _, .object hitems harguments hflag hmembers => by
    have harray := (Json.isExact_array _).trans
      (Json.allItems_iff.2 (isExact_of_encodesList as hitems))
    rw [Json.isExact_object, Json.allMembers_iff]
    intro m hm
    rcases List.mem_cons.1 (hmembers.mem_iff.1 hm) with rfl | hm
    · rfl
    · rcases List.mem_append.1 hm with hm | hm
      · rcases harguments with rfl | ⟨-, rfl⟩
        · rw [List.mem_singleton.1 hm]
          exact harray
        · cases hm
      · rcases hflag with rfl | ⟨-, rfl⟩
        · rw [List.mem_singleton.1 hm]
          rfl
        · cases hm

theorem isExact_of_encodesArgument : ∀ (a : TypeArgument) {v : Json}, EncodesArgument v a →
    v.isExact = true
  | _, _, .text _ => rfl
  | .type .invariant t, _, .object h => isExact_of_encodes t h

theorem isExact_of_encodesList : ∀ (as : List TypeArgument) {items : List Json},
    EncodesList items as → ∀ item ∈ items, item.isExact = true
  | [], _, .nil => nofun
  | a :: as, _, .cons hitem hitems =>
    List.forall_mem_cons.2 ⟨isExact_of_encodesArgument a hitem, isExact_of_encodesList as hitems⟩

end

/-- Whatever is chosen at each level, an encoding is decoded as the reference. -/
theorem ofJson_of_encodes {t : TypeRef} {v : Json} (hwell : t.WellFormed) (h : Encodes v t) :
    ofJson v = .ok t := by
  have hreadable := Json.isReadable_of_isExact (isExact_of_encodes t h)
  cases h with
  | text hrenders =>
    rw [ofJson_string, Json.mapError_eq_ok_iff]
    exact parse_of_renders hwell hrenders
  | @object name as nullable _ _ _ members hitems harguments hflag hmembers =>
    obtain ⟨forms, hform, hread⟩ :=
      form_of_encodes (.mk name as nullable) hwell (.object hitems harguments hflag hmembers)
    rw [ofJson, hreadable, if_pos rfl, hform]
    dsimp only
    rw [toTypeRef, hread]
    rfl

/-- The text of an encoding is decoded as the reference if it is read down to the deepest level. -/
theorem decodeText_compact_iff {t : TypeRef} {v : Json} (hwell : t.WellFormed) (h : Encodes v t) :
    Json.decodeText ofJson v.compact = .ok t ↔ v.depth ≤ Json.maxDepth := by
  have hread := Json.read_compact (isExact_of_encodes t h)
  constructor
  · intro hcompact
    obtain ⟨v', hread', hdecode⟩ := Json.decodeText_eq_ok_iff.1 hcompact
    rw [hread] at hread'
    cases hread'
    by_contra hdeep
    -- what is nested too deeply is not readable, and only readable values are decoded
    have hunreadable := Json.isReadable_pruned v _ (Nat.lt_of_not_le hdeep)
    rw [ofJson, hunreadable] at hdecode
    cases hdecode
  · intro hdepth
    rw [Json.pruned_of_depth_le v _ hdepth] at hread
    exact Json.decodeText_eq_ok_iff.2 ⟨v, hread, ofJson_of_encodes hwell h⟩

/-- **All ways of writing a reference are read alike.**  Take a reference that a text can be read
as, and a value that writes it, with a text or an object chosen at each level.  The value is decoded
as this reference, and so is every document that is read as the value.  The document in which the
value is written on one line is decoded so if and only if the value is nested no more deeply than a
reader admits. -/
theorem decode_of_encodes {text : String} {t : TypeRef} {v : Json} (ht : parse text = .ok t)
    (hv : Encodes v t) :
    ofJson v = .ok t ∧
    (∀ document, Json.read document = some v → Json.decodeText ofJson document = .ok t) ∧
    (Json.decodeText ofJson v.compact = .ok t ↔ v.depth ≤ Json.maxDepth) := by
  have hwell := wellFormed_of_parse ht
  have hdecode := ofJson_of_encodes hwell hv
  exact ⟨hdecode, fun _ hread => Json.decodeText_eq_ok_iff.2 ⟨v, hread, hdecode⟩,
    decodeText_compact_iff hwell hv⟩

/-! ### A reference and two ways to write it

The box has arguments that are called like keywords.  A tower of boxes can be written with as many
levels as one likes, and a text of it is always read. -/

/-- A name of one part. -/
theorem isName_of_isPart {name : String} (h : IsPart name.toList) : IsName name := by
  have hsegments : segmentsOf name.toList = [name.toList] :=
    segmentsOf_eq_cons_iff.2 ⟨(List.append_nil _).symm,
      List.forall_mem_singleton.2 (not_dot_mem_of_isPart h)⟩
  rw [IsName, hsegments]
  exact List.forall_mem_singleton.2 h

namespace Sample

def box : TypeRef :=
  .mk "Box" [.type .contravariant (.named "Key"), .star, .type .invariant (.named "out"),
    .type .invariant (.mk "List" [.type .invariant (.mk "in" [] true)] false)] true

/-- The box as an object with its members in another order, in it a list as an object. -/
def boxObject : Json :=
  .object [("nullable", .bool true),
    ("arguments", .array [.string "in Key", .string "*", .string "out",
      .object [("name", .string "List"), ("arguments", .array [.string "in?"])]]),
    ("name", .string "Box")]

theorem wellFormed_box : box.WellFormed := by
  have hname : ∀ name ∈ ["Box", "Key", "out", "List", "in"], IsName name := by
    intro name hmem
    refine isName_of_isPart ⟨?_, ?_⟩
    · revert name
      decide
    · rw [← List.all_eq_true]
      revert name
      decide
  simp only [List.forall_mem_cons] at hname
  obtain ⟨hbox, hkey, hout, hlist, hin, -⟩ := hname
  have hstart : (TypeRef.named "Key").StartsType := by
    show "Key".toList.head?.any isTypeStart = true
    decide
  exact ⟨hbox, ⟨.inr hstart, hkey, trivial⟩, trivial, ⟨.inl rfl, hout, trivial⟩,
    ⟨.inl rfl, hlist, ⟨.inl rfl, hin, trivial⟩, trivial⟩, trivial⟩

theorem encodes_boxObject : Encodes boxObject box := by
  have hlist : Encodes (.object [("name", .string "List"), ("arguments", .array [.string "in?"])])
      (.mk "List" [.type .invariant (.mk "in" [] true)] false) :=
    .object (.cons (.text (TypeArgument.renders_display _)) .nil) (.inl rfl) (.inr ⟨rfl, rfl⟩)
      (.refl _)
  refine .object (.cons (.text (TypeArgument.renders_display _)) <|
    .cons (.text (TypeArgument.renders_display _)) <|
    .cons (.text (TypeArgument.renders_display _)) <| .cons hlist.argument .nil)
    (.inl rfl) (.inl rfl) ?_
  exact List.reverse_perm [_, _, _]

/-- Boxes one inside the other. -/
def tower : Nat → TypeRef
  | 0 => .named "Box"
  | n + 1 => .mk "Box" [.type .invariant (tower n)] false

/-- The boxes as objects one inside the other. -/
def towerObject : Nat → Json
  | 0 => .object [("name", .string "Box"), ("arguments", .array [])]
  | n + 1 => .object [("name", .string "Box"), ("arguments", .array [towerObject n])]

theorem wellFormed_tower (n : Nat) : (tower n).WellFormed := by
  have hname : IsName "Box" := wellFormed_box.1
  induction n with
  | zero => exact ⟨hname, trivial⟩
  | succ n ih => exact ⟨hname, ⟨.inl rfl, ih⟩, trivial⟩

theorem encodes_towerObject (n : Nat) : Encodes (towerObject n) (tower n) := by
  induction n with
  | zero => exact .object .nil (.inl rfl) (.inr ⟨rfl, rfl⟩) (.refl _)
  | succ n ih => exact .object (.cons ih.argument .nil) (.inl rfl) (.inr ⟨rfl, rfl⟩) (.refl _)

/-- Every box takes two levels. -/
theorem depth_towerObject (n : Nat) : (towerObject n).depth = 2 * n + 2 := by
  induction n with
  | zero => rfl
  | succ n ih =>
    show max 0 (max (max (towerObject n).depth 0 + 1) 0) + 1 = _
    rw [ih]
    omega

end Sample

theorem decode_of_encodes_box :
    parse "Box<in Key, *, out, List<in?>>?" = .ok Sample.box ∧
    Encodes Sample.boxObject Sample.box ∧ ofJson Sample.boxObject = .ok Sample.box ∧
    Json.decodeText ofJson Sample.boxObject.compact = .ok Sample.box := by
  have hdisplay : Sample.box.display = "Box<in Key, *, out, List<in?>>?" := by rfl
  have hparse : parse "Box<in Key, *, out, List<in?>>?" = .ok Sample.box :=
    hdisplay ▸ parse_display_iff.2 Sample.wellFormed_box
  obtain ⟨hdecode, -, hdocument⟩ := decode_of_encodes hparse Sample.encodes_boxObject
  exact ⟨hparse, Sample.encodes_boxObject, hdecode, hdocument.2 (by decide)⟩

/-- A tower of 64 boxes is read from a text and decoded from the value, but not from the document in
which it is written with objects. -/
theorem decode_towerObject_ne :
    ∃ text t v, parse text = .ok t ∧ Encodes v t ∧ ofJson v = .ok t ∧
      Json.decodeText ofJson v.compact ≠ .ok t := by
  have hwell := Sample.wellFormed_tower 63
  have hencodes := Sample.encodes_towerObject 63
  refine ⟨_, _, _, parse_display_iff.2 hwell, hencodes, ofJson_of_encodes hwell hencodes,
    fun h => ?_⟩
  have hdepth := (decodeText_compact_iff hwell hencodes).1 h
  rw [Sample.depth_towerObject] at hdepth
  exact absurd hdepth (by decide)

end TypeRef

end ModelForge
