/-
When declarations that are written are decoded as they were.

A record is written with all its fields, each once, and its numbers fit.  So it is decoded as it
was if and only if each part of it is:

* `PartProperty.restorable` — the parts that are: references that can be written at all, and
  annotations in which no array is taken for an annotation;
* `Json.bind_field_none_iff` — what the first member with the name of a field adds;
* `PropertyDecl.ofJson_toJson_iff`, `ClassDecl.ofJson_toJson_iff`, `Declaration.ofJson_toJson_iff`
  — the canonical records that are decoded as they were are the restorable ones.
-/
import ModelForge.Proofs.DecodedParts

namespace ModelForge

open Json

/-- What holds of the parts that are decoded from what they are written as. -/
def PartProperty.restorable : PartProperty :=
  ⟨TypeRef.WellFormed, Annotation.All AnnotationValue.IsRestorable, fun _ => True⟩

/-! ### Members that are written once -/

namespace Json

variable {α β σ : Type}

theorem ok_eq_ok_iff {a b : α} : (.ok a : Decoded α) = .ok b ↔ a = b :=
  ⟨Except.ok.inj, congrArg Except.ok⟩

/-- The first member with the name of a field is its value. -/
theorem bind_field_none_iff {name : String} {decode : Json → Decoded α} {value : Json}
    {update : Option α → σ} {s : σ} :
    (do return update (← field name none decode value)) = Except.ok s ↔
      ∃ a, decode value = .ok a ∧ update (some a) = s := by
  rw [field_none]
  cases decode value with
  | error e => exact ⟨nofun, nofun⟩
  | ok a =>
    constructor
    · rintro ⟨⟩
      exact ⟨a, rfl, rfl⟩
    · rintro ⟨_, ⟨⟩, rfl⟩
      rfl

theorem foldMembers_nil_iff {set : σ → String → Json → Decoded σ} {s s' : σ} :
    foldMembers set s [] = .ok s' ↔ s = s' :=
  ok_eq_ok_iff

theorem foldMembers_cons_iff {set : σ → String → Json → Decoded σ} {s s' : σ} {name : String}
    {value : Json} {members : List (String × Json)} :
    foldMembers set s ((name, value) :: members) = .ok s' ↔
      ∃ mid, set s name value = .ok mid ∧ foldMembers set mid members = .ok s' :=
  bind_eq_ok_iff

theorem toRecord_object_iff {names : List String} {start : σ}
    {set : σ → String → Json → Decoded σ} {complete : σ → Decoded α}
    {members : List (String × Json)} {a : α} :
    toRecord names start set complete (.object members) = .ok a ↔
      ∃ s, foldMembers set start members = .ok s ∧ complete s = .ok a :=
  bind_eq_ok_iff

theorem toText_string_iff {s t : String} : toText (.string s) = .ok t ↔ s = t :=
  ok_eq_ok_iff

theorem toBool_bool_iff {b b' : Bool} : toBool (.bool b) = .ok b' ↔ b = b' :=
  ok_eq_ok_iff

end Json

/-! ### Records -/

theorem Location.ofJson_toJson (l : Location) : Location.ofJson l.toJson = .ok l := by
  have hline : ¬ (l.line : Int) < 0 := by omega
  have hcolumn : ¬ (l.column : Int) < 0 := by omega
  rw [ofJson, toJson]
  simp only [toRecord_object_iff, foldMembers_cons_iff, foldMembers_nil_iff, Fields.set,
    bind_field_none_iff, toText_string_iff, toCount, if_neg hline, if_neg hcolumn, ok_eq_ok_iff,
    exists_eq_left']
  rfl

theorem toList_types_iff {ts : List TypeRef} :
    toList TypeRef.ofJson (list TypeRef.toJson ts) = .ok ts ↔
      ∀ t ∈ ts, PartProperty.restorable.type t :=
  toList_list_iff.trans (forall₂_congr fun _ _ => TypeRef.ofJson_toJson_iff)

theorem toList_annotations_iff {as : List Annotation}
    (h : ∀ a ∈ as, PartProperty.canonical.annotation a) :
    toList Annotation.ofJson (list Annotation.toJson as) = .ok as ↔
      ∀ a ∈ as, PartProperty.restorable.annotation a :=
  toList_list_iff.trans (forall₂_congr fun a ha => Annotation.ofJson_toJson_iff (h a ha))

theorem toOptional_location_iff {found : Option Location} :
    toOptional Location.ofJson (optional Location.toJson found) = .ok found ↔
      ∀ l ∈ found, PartProperty.restorable.location l :=
  (toOptional_optional_iff nofun).trans
    (forall₂_congr fun l _ => iff_of_true (Location.ofJson_toJson l) trivial)

theorem toList_texts (texts : List String) : toList toText (list .string texts) = .ok texts :=
  toList_list_iff.2 fun _ _ => rfl

theorem PropertyDecl.ofJson_toJson_iff {p : PropertyDecl} (h : p.All .canonical) :
    PropertyDecl.ofJson p.toJson = .ok p ↔ p.All .restorable := by
  obtain ⟨name, type, annotations, location⟩ := p
  have htype : _ ↔ PartProperty.restorable.type type := TypeRef.ofJson_toJson_iff
  rw [All, ← toOptional_location_iff, ← toList_annotations_iff h.2.1, ← htype, ofJson, toJson]
  -- every member is met once, and fills its own field
  simp only [toRecord_object_iff, foldMembers_cons_iff, foldMembers_nil_iff, Fields.set,
    bind_field_none_iff, toText_string_iff, exists_eq_left', exists_exists_and_eq_and]
  constructor
  · rintro ⟨_, ⟨_, htype, _, has, _, hl, rfl⟩, h⟩
    cases h
    exact ⟨htype, has, hl⟩
  · rintro ⟨htype, has, hl⟩
    exact ⟨_, ⟨_, htype, _, has, _, hl, rfl⟩, rfl⟩

theorem CompanionDecl.ofJson_toJson_iff {k : CompanionDecl} :
    CompanionDecl.ofJson k.toJson = .ok k ↔ k.All .restorable := by
  obtain ⟨name, typeParameters, superTypes⟩ := k
  rw [All, ← toList_types_iff, ofJson, toJson]
  simp only [toRecord_object_iff, foldMembers_cons_iff, foldMembers_nil_iff, Fields.set,
    bind_field_none_iff, toText_string_iff, toList_texts, ok_eq_ok_iff, exists_eq_left',
    exists_exists_and_eq_and]
  constructor
  · rintro ⟨_, hts, h⟩
    cases h
    exact hts
  · exact fun hts => ⟨_, hts, rfl⟩

theorem AliasDecl.ofJson_toMembers_iff {a : AliasDecl} (h : a.All .canonical) :
    AliasDecl.ofJson (.object a.toMembers) = .ok a ↔ a.All .restorable := by
  obtain ⟨package, name, typeParameters, target, annotations, location⟩ := a
  have htarget : _ ↔ PartProperty.restorable.type target := TypeRef.ofJson_toJson_iff
  rw [All, ← toOptional_location_iff, ← toList_annotations_iff h.2.1, ← htarget, ofJson, toMembers]
  simp only [toRecord_object_iff, foldMembers_cons_iff, foldMembers_nil_iff, Fields.set,
    Fields.start, bind_field_none_iff, toText_string_iff, toList_texts, ok_eq_ok_iff,
    exists_eq_left', exists_exists_and_eq_and]
  constructor
  · rintro ⟨_, ⟨_, ht, _, has, _, hl, rfl⟩, h⟩
    cases h
    exact ⟨ht, has, hl⟩
  · rintro ⟨ht, has, hl⟩
    exact ⟨_, ⟨_, ht, _, has, _, hl, rfl⟩, rfl⟩

/-! ### Classes -/

theorem ClassKind.ofName_name (k : ClassKind) : ofName k.name = .ok k := by
  cases k <;> rfl

namespace ClassDecl

theorem set_of_ne {f : Fields} {name : String} (h : name ≠ "nested") (value : Json) :
    set f name value = f.setPlain name value := by
  cases value <;> simp [set, h]

theorem set_nested {f f' : Fields} (hf : f.nested = none) {items : List Json} :
    set f "nested" (.array items) = .ok f' ↔
      ∃ cs, listOfJson items = .ok cs ∧ { f with nested := some cs } = f' := by
  rw [set]
  simp only [if_true, hf, Option.isSome_none, Bool.false_eq_true, if_false]
  rw [bind_eq_ok_iff]
  exact exists_congr fun cs => and_congr_right fun _ => ok_eq_ok_iff

theorem ofMembers_eq_foldMembers (members : List (String × Json)) :
    ∀ f : Fields, ofMembers f members = foldMembers set f members := by
  induction members with
  | nil => exact fun f => rfl
  | cons m members ih =>
    intro f
    rw [ofMembers, foldMembers]
    exact congrArg (set f m.1 m.2 >>= ·) (funext ih)

/-- A class is decoded as it was if and only if its own parts and its nested classes are. -/
theorem ofJson_membersWith_iff {c : ClassDecl} {nested : List Json}
    (h : c.AllOwn .canonical) :
    ofJson (.object (c.membersWith nested)) = .ok c ↔
      c.AllOwn .restorable ∧ listOfJson nested = .ok c.nested := by
  obtain ⟨package, name, kind, typeParameters, superTypes, annotations, properties, companion,
    own, isPrivate, location⟩ := c
  have hproperties : toList PropertyDecl.ofJson (list PropertyDecl.toJson properties) =
      .ok properties ↔ ∀ p ∈ properties, p.All .restorable :=
    toList_list_iff.trans
      (forall₂_congr fun p hp => PropertyDecl.ofJson_toJson_iff (h.2.2.1 p hp))
  have hcompanion : toOptional CompanionDecl.ofJson (optional CompanionDecl.toJson companion) =
      .ok companion ↔ ∀ k ∈ companion, k.All .restorable :=
    (toOptional_optional_iff nofun).trans
      (forall₂_congr fun _ _ => CompanionDecl.ofJson_toJson_iff)
  rw [AllOwn, ← toList_types_iff, ← toList_annotations_iff h.2.1, ← hproperties, ← hcompanion,
    ← toOptional_location_iff, ofJson, bind_eq_ok_iff, ofMembers_eq_foldMembers, membersWith]
  -- all members but the nested classes are those of a plain record
  simp (disch := first | rfl | decide) only [foldMembers_cons_iff, foldMembers_nil_iff,
    set_of_ne, set_nested, Fields.setPlain, Fields.start, bind_field_none_iff,
    toText_string_iff, toList_texts, ClassKind.ofJson, ClassKind.ofName_name, toBool_bool_iff,
    ok_eq_ok_iff, exists_eq_left', exists_exists_and_eq_and]
  constructor
  · rintro ⟨_, ⟨_, hts, _, has, _, hps, _, hk, _, hcs, _, hl, rfl⟩, h⟩
    cases h
    exact ⟨⟨hts, has, hps, hk, hl⟩, hcs⟩
  · rintro ⟨⟨hts, has, hps, hk, hl⟩, hcs⟩
    exact ⟨_, ⟨_, hts, _, has, _, hps, _, hk, _, hcs, _, hl, rfl⟩, rfl⟩

theorem toJson_eq (c : ClassDecl) : c.toJson = .object c.toMembers := by
  cases c
  rfl

mutual

/-- A class is decoded as it was if and only if all its parts are. -/
theorem ofJson_toJson_iff : ∀ {c : ClassDecl}, c.All .canonical →
    (ofJson c.toJson = .ok c ↔ c.All .restorable)
  | ⟨_, _, _, _, _, _, _, _, nested, _, _⟩, h => by
    rw [toJson_eq, toMembers, ofJson_membersWith_iff h.1, All, ← listOfJson_listToJson_iff h.2]

theorem listOfJson_listToJson_iff : ∀ {cs : List ClassDecl}, AllNested .canonical cs →
    (listOfJson (listToJson cs) = .ok cs ↔ AllNested .restorable cs)
  | [], _ => ⟨fun _ => trivial, fun _ => rfl⟩
  | c :: cs, h => by
    rw [listToJson, listOfJson, AllNested, ← ofJson_toJson_iff h.1,
      ← listOfJson_listToJson_iff h.2, bind_eq_ok_iff]
    constructor
    · rintro ⟨c', hc, h⟩
      obtain ⟨rest, hrest, heq⟩ := bind_eq_ok_iff.1 h
      cases heq
      exact ⟨hc, hrest⟩
    · rintro ⟨hc, hcs⟩
      exact ⟨c, hc, bind_eq_ok_iff.2 ⟨cs, hcs, rfl⟩⟩

end

end ClassDecl

/-! ### What is written -/

namespace Json

theorem isExact_object_iff {members : List (String × Json)} :
    (object members).isExact = true ↔ ∀ m ∈ members, m.2.isExact = true :=
  (iff_of_eq (congrArg (· = true) (isExact_object members))).trans allMembers_iff

theorem isExact_list {α : Type} {encode : α → Json} {as : List α}
    (h : ∀ a ∈ as, (encode a).isExact = true) : (list encode as).isExact = true := by
  rw [list, isExact_array, allItems_iff]
  exact List.forall_mem_map.2 h

theorem isExact_optional {α : Type} {encode : α → Json} {found : Option α}
    (h : ∀ a ∈ found, (encode a).isExact = true) : (optional encode found).isExact = true := by
  cases found with
  | none => rfl
  | some a => exact h a rfl

end Json

theorem Location.isExact_toJson {l : Location} (h : l.Fits) : l.toJson.isExact = true := by
  have hkept : ∀ n : Nat, n < 2 ^ 64 → (integer n).isExact = true := by
    intro n hn
    show isKept n = true
    rw [isKept_iff]
    omega
  rw [toJson, isExact_object_iff]
  simp only [List.forall_mem_cons]
  exact ⟨rfl, hkept _ h.1, hkept _ h.2, nofun⟩

theorem isExact_annotations {as : List Annotation}
    (h : ∀ a ∈ as, PartProperty.canonical.annotation a) :
    (list Annotation.toJson as).isExact = true :=
  isExact_list fun a ha => Annotation.isExact_toJson (h a ha)

theorem isExact_location {found : Option Location}
    (h : ∀ l ∈ found, PartProperty.canonical.location l) :
    (optional Location.toJson found).isExact = true :=
  isExact_optional fun l hl => Location.isExact_toJson (h l hl)

theorem isExact_types (ts : List TypeRef) : (list TypeRef.toJson ts).isExact = true :=
  isExact_list fun t _ => TypeRef.isExact_toJson t

theorem isExact_texts (texts : List String) : (list .string texts).isExact = true :=
  isExact_list fun _ _ => rfl

theorem PropertyDecl.isExact_toJson {p : PropertyDecl} (h : p.All .canonical) :
    p.toJson.isExact = true := by
  rw [toJson, isExact_object_iff]
  simp only [List.forall_mem_cons]
  exact ⟨rfl, rfl, isExact_annotations h.2.1, isExact_location h.2.2, nofun⟩

theorem CompanionDecl.isExact_toJson (k : CompanionDecl) : k.toJson.isExact = true := by
  rw [toJson, isExact_object_iff]
  simp only [List.forall_mem_cons]
  exact ⟨rfl, isExact_texts _, isExact_types _, nofun⟩

theorem AliasDecl.isExact_toMembers {a : AliasDecl} (h : a.All .canonical) :
    ∀ m ∈ a.toMembers, m.2.isExact = true := by
  simp only [toMembers, List.forall_mem_cons]
  exact ⟨rfl, rfl, isExact_texts _, rfl, isExact_annotations h.2.1, isExact_location h.2.2, nofun⟩

namespace ClassDecl

theorem isExact_membersWith {c : ClassDecl} {nested : List Json} (h : c.AllOwn .canonical)
    (hnested : allItems isFaithful nested = true) :
    ∀ m ∈ c.membersWith nested, m.2.isExact = true := by
  obtain ⟨-, hannotations, hproperties, -, hlocation⟩ := h
  simp only [membersWith, List.forall_mem_cons]
  exact ⟨rfl, rfl, rfl, isExact_texts _, isExact_types _, isExact_annotations hannotations,
    isExact_list fun p hp => PropertyDecl.isExact_toJson (hproperties p hp),
    isExact_optional fun k _ => CompanionDecl.isExact_toJson k,
    (isExact_array nested).trans hnested, rfl, isExact_location hlocation, nofun⟩

mutual

theorem isExact_toJson : ∀ {c : ClassDecl}, c.All .canonical → c.toJson.isExact = true
  | ⟨_, _, _, _, _, _, _, _, _, _, _⟩, h => by
    rw [toJson_eq, isExact_object_iff, toMembers]
    exact isExact_membersWith h.1 (isExact_listToJson h.2)

theorem isExact_listToJson : ∀ {cs : List ClassDecl}, AllNested .canonical cs →
    allItems isFaithful (listToJson cs) = true
  | [], _ => rfl
  | _ :: _, h => Bool.and_eq_true_iff.2 ⟨isExact_toJson h.1, isExact_listToJson h.2⟩

end

theorem isExact_toMembers {c : ClassDecl} (h : c.All .canonical) :
    ∀ m ∈ c.toMembers, m.2.isExact = true := by
  have hobject := isExact_toJson h
  rw [toJson_eq] at hobject
  exact isExact_object_iff.1 hobject

end ClassDecl

/-! ### Declarations -/

namespace Declaration

/-- What a declaration declares. -/
def kind : Declaration → DeclarationKind
  | ofClass _ => .classKind
  | ofAlias _ => .aliasKind

/-- The members that a declaration is written with after its kind. -/
def toMembers : Declaration → List (String × Json)
  | ofClass c => c.toMembers
  | ofAlias a => a.toMembers

theorem toJson_eq : ∀ d : Declaration,
    d.toJson = .object (("kind", .string d.kind.name) :: d.toMembers)
  | ofClass _ | ofAlias _ => rfl

/-- No member after the kind is named as the kind is. -/
theorem name_ne_of_mem_toMembers : ∀ {d : Declaration}, ∀ m ∈ d.toMembers, m.1 ≠ "kind"
  | ofClass c => by
    simp only [toMembers, ClassDecl.toMembers, ClassDecl.membersWith, List.forall_mem_cons]
    exact ⟨by decide, by decide, by decide, by decide, by decide, by decide, by decide, by decide,
      by decide, by decide, by decide, nofun⟩
  | ofAlias a => by
    simp only [toMembers, AliasDecl.toMembers, List.forall_mem_cons]
    exact ⟨by decide, by decide, by decide, by decide, by decide, by decide, nofun⟩

theorem takeFrom_of_ne {found : Option DeclarationKind} {members : List (String × Json)}
    (h : ∀ m ∈ members, m.1 ≠ "kind") :
    DeclarationKind.takeFrom found members = .ok (found, members) := by
  induction members with
  | nil => rfl
  | cons m members ih =>
    obtain ⟨hname, hmembers⟩ := List.forall_mem_cons.1 h
    unfold DeclarationKind.takeFrom
    rw [if_neg hname, ih hmembers]
    rfl

/-- What follows the kind is decoded by the kind. -/
theorem ofJson_kind (kind : DeclarationKind) {members : List (String × Json)}
    (h : ∀ m ∈ members, m.1 ≠ "kind") :
    ofJson (.object (("kind", .string kind.name) :: members)) = ofBody kind (.object members) := by
  have htake : DeclarationKind.takeFrom none (("kind", .string kind.name) :: members) =
      DeclarationKind.takeFrom (some kind) members := by
    cases kind <;> rfl
  rw [ofJson, htake, takeFrom_of_ne h]
  rfl

theorem isExact_toMembers : ∀ {d : Declaration}, d.All .canonical →
    ∀ m ∈ d.toMembers, m.2.isExact = true
  | ofClass _, h => ClassDecl.isExact_toMembers h
  | ofAlias _, h => AliasDecl.isExact_toMembers h

theorem isExact_toJson {d : Declaration} (h : d.All .canonical) : d.toJson.isExact = true := by
  rw [toJson_eq, isExact_object_iff, List.forall_mem_cons]
  exact ⟨rfl, isExact_toMembers h⟩

/-- A canonical declaration is decoded as it was if and only if it is restorable. -/
theorem ofJson_toJson_iff {d : Declaration} (h : d.All .canonical) :
    ofJson d.toJson = .ok d ↔ d.All .restorable := by
  have hreadable := isReadable_of_isExact (isExact_object_iff.2 (isExact_toMembers h))
  rw [toJson_eq, ofJson_kind _ name_ne_of_mem_toMembers]
  unfold ofBody
  rw [if_pos hreadable]
  cases d with
  | ofClass c =>
    have hclass := ClassDecl.ofJson_toJson_iff h
    rw [ClassDecl.toJson_eq] at hclass
    show Except.mapError _ _ = _ ↔ c.All .restorable
    rw [mapError_eq_ok_iff, map_injective_eq_ok_iff fun _ _ => ofClass.inj]
    exact hclass
  | ofAlias a =>
    show Except.mapError _ _ = _ ↔ a.All .restorable
    rw [mapError_eq_ok_iff, map_injective_eq_ok_iff fun _ _ => ofAlias.inj]
    exact AliasDecl.ofJson_toMembers_iff h

end Declaration

end ModelForge
