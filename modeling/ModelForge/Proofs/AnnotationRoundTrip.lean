/-
When annotations that are written are decoded as they were.

An argument's value is written without a word on what it is, and is decoded as the first form
that fits.  So two things can go wrong: a class literal may hold a reference that its text is
not read as, and an array of a text and an object may be taken for an annotation in array form.

* `TypeRef.ofJson_toJson_iff` — the references that are decoded from what they are written as;
* `AnnotationValue.All` — a property of all values in an annotation,
  `AnnotationValue.IsCanonical` what holds of all that are decoded;
* `AnnotationValue.readsAsAnnotation` — the arrays that are taken for annotations, by what is
  passed in them;
* `AnnotationValue.ofJson_toJson_iff`, `Annotation.ofJson_toJson_iff` — a canonical value is
  decoded as it was if and only if neither happens in it.
-/
import Mathlib.Data.String.Basic
import ModelForge.Annotation.Json
import ModelForge.Proofs.CompactText
import ModelForge.Proofs.Decoding

namespace ModelForge

open Json (Decoded bind_eq_ok_iff map_eq_ok_iff map_injective_eq_ok_iff mapError_eq_ok_iff)

/-! ### Type references -/

namespace TypeRef

/-- The displayed form of a reference is read as the reference if and only if this can be
written at all. -/
theorem parse_display_iff {t : TypeRef} : parse t.display = .ok t ↔ t.WellFormed :=
  ⟨wellFormed_of_parse, fun hwell => parse_of_renders hwell (renders_display t)⟩

theorem ofJson_string (s : String) :
    ofJson (.string s) = (parse s).mapError .malformedType :=
  rfl

theorem ofJson_toJson_iff {t : TypeRef} : ofJson t.toJson = .ok t ↔ t.WellFormed := by
  rw [toJson, ofJson_string, mapError_eq_ok_iff, parse_display_iff]

end TypeRef

/-! ### The values in an annotation -/

section

variable (p : AnnotationValue → Prop)

mutual

/-- Whether all values in an annotation have a property, and it itself as a value. -/
def Annotation.All : Annotation → Prop
  | .mk type arguments => p (.nested (.mk type arguments)) ∧ AnnotationValue.AllArguments arguments

/-- Whether a value and all values in it have a property. -/
def AnnotationValue.All : AnnotationValue → Prop
  | .nested a => a.All
  | .array items => p (.array items) ∧ AnnotationValue.AllItems items
  | value => p value

/-- Whether all values in the items of an array have a property. -/
def AnnotationValue.AllItems : List AnnotationValue → Prop
  | [] => True
  | value :: values => value.All ∧ AnnotationValue.AllItems values

/-- Whether all values in the arguments of an annotation have a property. -/
def AnnotationValue.AllArguments : List (String × AnnotationValue) → Prop
  | [] => True
  | (_, value) :: arguments => value.All ∧ AnnotationValue.AllArguments arguments

end

end

namespace AnnotationValue

/-- Whether the arguments are in strictly increasing order of their names. -/
def Sorted (arguments : List (String × AnnotationValue)) : Prop :=
  arguments.Pairwise fun a b => a.1 < b.1

/-- What holds of a decoded value apart from its parts: an integer has 64 bits with a sign, and
the arguments of an annotation are in their order. -/
def IsCanonical : AnnotationValue → Prop
  | .integer n => fits n = true
  | .nested a => Sorted a.arguments
  | _ => True

/-- Whether the value is a string. -/
def isText : AnnotationValue → Bool
  | .string _ => true
  | _ => false

/-- Whether the value is a string that is read as a type. -/
def isTypeText : AnnotationValue → Bool
  | .string s => (TypeRef.parse s).isOk
  | _ => false

mutual

/-- Whether the value is written as an object whose members are all values of arguments.  The
members of an annotation are its type and the object of its arguments, which is a value in its
turn if it is a class literal, by the member `class`, or an annotation. -/
def readsAsArguments : AnnotationValue → Bool
  | .classLiteral _ => true
  | .nested (.mk _ arguments) =>
    (arguments.lookup "class").any isTypeText ||
      (arguments.lookup "type").any isText && argumentsRead arguments
  | _ => false

/-- Whether what is passed under the name `arguments`, if something is, is written as an object
whose members are all values of arguments. -/
def argumentsRead : List (String × AnnotationValue) → Bool
  | [] => true
  | (name, value) :: arguments =>
    (name ≠ "arguments" || readsAsArguments value) && argumentsRead arguments

end

/-- Whether an array of these items is read as an annotation: the first item is its type, and
the second, if there is one, its arguments. -/
def readsAsAnnotation : List AnnotationValue → Bool
  | [.string _] => true
  | [.string _, value] => readsAsArguments value
  | _ => false

/-- Whether the value, apart from its parts, is decoded from what it is written as. -/
def IsRestorable : AnnotationValue → Prop
  | .classLiteral ref => ref.WellFormed
  | .array items => readsAsAnnotation items = false
  | _ => True

end AnnotationValue

/-! ### What is written -/

theorem TypeRef.isExact_toJson (t : TypeRef) : t.toJson.isExact = true :=
  rfl

section

open AnnotationValue

mutual

/-- A canonical annotation is written as what it is. -/
theorem Annotation.isExact_toJson : ∀ {a : Annotation}, a.All IsCanonical →
    a.toJson.isExact = true
  | .mk _ _, h => by
    rw [ Annotation.toJson, Json.isExact_object]
    have harguments := AnnotationValue.isExact_toMembers h.2
    rw [← Json.isExact_object] at harguments
    exact Bool.and_eq_true_iff.2 ⟨rfl, Bool.and_eq_true_iff.2 ⟨harguments, rfl⟩⟩

theorem AnnotationValue.isExact_toJson : ∀ {v : AnnotationValue}, v.All IsCanonical →
    v.toJson.isExact = true
  | .bool _, _ | .string _, _ | .classLiteral _, _ => rfl
  | .integer n, h => by
    have hfits : fits n = true := h
    have hbounds : -Int.pow 2 63 ≤ n ∧ n < Int.pow 2 63 := by simpa [fits] using hfits
    have hhalf : (Int.pow 2 63 : Int) = 9223372036854775808 := rfl
    show Json.isKept n = true
    rw [Json.isKept_iff]
    omega
  | .nested _, h => Annotation.isExact_toJson h
  | .array _, h => (Json.isExact_array _).trans (AnnotationValue.isExact_toItems h.2)

theorem AnnotationValue.isExact_toItems : ∀ {vs : List AnnotationValue}, AllItems IsCanonical vs →
    Json.allItems Json.isFaithful (toItems vs) = true
  | [], _ => rfl
  | _ :: _, h => Bool.and_eq_true_iff.2
    ⟨AnnotationValue.isExact_toJson h.1, AnnotationValue.isExact_toItems h.2⟩

theorem AnnotationValue.isExact_toMembers : ∀ {as : List (String × AnnotationValue)},
    AllArguments IsCanonical as → Json.allMembers Json.isFaithful (toMembers as) = true
  | [], _ => rfl
  | _ :: _, h => Bool.and_eq_true_iff.2
    ⟨AnnotationValue.isExact_toJson h.1, AnnotationValue.isExact_toMembers h.2⟩

end

end

namespace AnnotationValue

theorem areMembersReadable_toMembers {as : List (String × AnnotationValue)}
    (h : AllArguments IsCanonical as) : Json.areMembersReadable (toMembers as) = true :=
  Json.areMembersReadable_of_isExact (isExact_toMembers h)

theorem map_fst_toMembers (as : List (String × AnnotationValue)) :
    (toMembers as).map Prod.fst = as.map Prod.fst := by
  induction as with
  | nil => rfl
  | cons a as ih => rw [toMembers, List.map_cons, List.map_cons, ih]

theorem Sorted.lookup_eq_none {name : String} {v : AnnotationValue}
    {as : List (String × AnnotationValue)} (h : Sorted ((name, v) :: as)) :
    as.lookup name = none := by
  rw [List.lookup_eq_none_iff]
  intro a ha
  simpa using ((List.pairwise_cons.1 h).1 a ha).ne

theorem lookup_cons_of_ne {name other : String} (hne : other ≠ name) (v : AnnotationValue)
    (as : List (String × AnnotationValue)) :
    ((other, v) :: as).lookup name = as.lookup name := by
  rw [List.lookup_cons, beq_eq_false_iff_ne.2 (Ne.symm hne)]

/-- What stands under a name, if no name is used twice. -/
theorem filter_toMembers (name : String) {as : List (String × AnnotationValue)} (h : Sorted as) :
    ((toMembers as).filter fun m => m.1 = name) =
      ((as.lookup name).map fun v => (name, v.toJson)).toList := by
  induction as with
  | nil => rfl
  | cons a as ih =>
    obtain ⟨other, v⟩ := a
    have hsorted := (List.pairwise_cons.1 h).2
    rw [toMembers]
    by_cases hname : other = name
    · subst hname
      rw [List.filter_cons_of_pos (by simp), ih hsorted, h.lookup_eq_none,
        List.lookup_cons_self]
      rfl
    · rw [List.filter_cons_of_neg (by simpa using hname), ih hsorted, lookup_cons_of_ne hname]

/-! ### Class literals -/

/-- Only a string is read as a type among the values that are written. -/
theorem isOk_ofJson_toJson : ∀ v : AnnotationValue,
    (TypeRef.ofJson v.toJson).isOk = v.isTypeText
  | .bool _ | .integer _ | .classLiteral _ => rfl
  | .string s => by
    show (TypeRef.ofJson (.string s)).isOk = (TypeRef.parse s).isOk
    rw [TypeRef.ofJson_string]
    cases TypeRef.parse s <;> rfl
  | .nested (.mk _ _) | .array _ => by
    unfold TypeRef.ofJson
    split <;> rename_i heq
    · rfl
    · split at heq <;> cases heq

theorem isSome_classOf? {as : List (String × AnnotationValue)} (h : Sorted as) :
    (classOf? (toMembers as)).isSome = (as.lookup "class").any isTypeText := by
  unfold classOf?
  rw [filter_toMembers "class" h]
  cases as.lookup "class" with
  | none => rfl
  | some v =>
    rw [Option.any_some, ← isOk_ofJson_toJson]
    show (TypeRef.ofJson v.toJson).toOption.isSome = _
    cases TypeRef.ofJson v.toJson <;> rfl

/-! ### Arrays that are read as annotations -/

theorem set_of_ne {f : Annotation.Fields} {name : String} (harguments : name ≠ "arguments")
    (htype : name ≠ "type") (value : Json) : Annotation.set f name value = .ok f := by
  cases value <;> simp [ Annotation.set, harguments, htype]

theorem set_type {f : Annotation.Fields} (hf : f.type = none) (value : Json) :
    Annotation.set f "type" value =
      (Json.toText value).map fun s => { f with type := some s } := by
  cases value <;> simp [ Annotation.set, hf, Json.field] <;> rfl

theorem toText_toJson : ∀ v : AnnotationValue, v.isText = false →
    Json.toText v.toJson = .error .wrongType
  | .bool _, _ | .integer _, _ | .classLiteral _, _ | .nested (.mk _ _), _ | .array _, _ => rfl

theorem set_arguments_object {f : Annotation.Fields} (hf : f.arguments = none)
    {members : List (String × Json)} (hreadable : Json.areMembersReadable members = true) :
    Annotation.set f "arguments" (.object members) =
      (ofMembers members).map fun as => { f with arguments := some as } := by
  rw [ Annotation.set]
  simp only [if_true, hf, Option.isSome_none, Bool.false_eq_true, if_false, hreadable]
  rfl

theorem arguments_of_set {f f' : Annotation.Fields} {value : Json}
    (h : Annotation.set f "arguments" value = .ok f') :
    ∃ as, f' = { f with arguments := some as } := by
  cases value with
  | object members =>
    rw [ Annotation.set, if_pos rfl] at h
    split at h
    · cases h
    · split at h
      · obtain ⟨as, -, ⟨⟩⟩ := bind_eq_ok_iff.1 h
        exact ⟨as, rfl⟩
      · cases h
  | _ =>
    simp only [ Annotation.set, if_true] at h
    split at h <;> cases h

theorem exists_complete_iff {f : Annotation.Fields} :
    (∃ a, f.complete = .ok a) ↔ f.type.isSome = true := by
  obtain ⟨type, arguments⟩ := f
  cases type with
  | none => exact ⟨nofun, nofun⟩
  | some s => exact ⟨fun _ => rfl, fun _ => ⟨_, rfl⟩⟩

/-- An object of arguments is a value if it is a class literal or else an annotation. -/
theorem exists_ofJson_object_iff {as : List (String × AnnotationValue)} (h : Sorted as) :
    (∃ v, ofJson (.object (toMembers as)) = .ok v) ↔
      (as.lookup "class").any isTypeText = true ∨
        ∃ f, Annotation.ofMembers .start (toMembers as) = .ok f ∧ f.type.isSome = true := by
  rw [← isSome_classOf? h, ofJson]
  cases classOf? (toMembers as) with
  | some ref => exact ⟨fun _ => .inl rfl, fun _ => ⟨_, rfl⟩⟩
  | none =>
    constructor
    · rintro ⟨v, hv⟩
      refine .inr ?_
      dsimp only at hv
      split at hv
      · rename_i a ha
        obtain ⟨f, hf, hcomplete⟩ := bind_eq_ok_iff.1 ha
        exact ⟨f, hf, exists_complete_iff.1 ⟨a, hcomplete⟩⟩
      · cases hv
    · rintro (hclass | ⟨f, hf, htype⟩)
      · cases hclass
      · obtain ⟨a, ha⟩ := exists_complete_iff.2 htype
        refine ⟨.nested a, ?_⟩
        dsimp only
        rw [bind_eq_ok_iff.2 ⟨f, hf, ha⟩]

/-- Members are accepted as arguments if the values of all are. -/
theorem exists_ofMembers_iff {members : List (String × Json)} :
    (∃ as, ofMembers members = .ok as) ↔ ∀ m ∈ members, ∃ v, ofJson m.2 = .ok v := by
  induction members with
  | nil => exact ⟨fun _ => nofun, fun _ => ⟨_, rfl⟩⟩
  | cons m members ih =>
    obtain ⟨name, value⟩ := m
    rw [List.forall_mem_cons, ← ih]
    constructor
    · rintro ⟨as, h⟩
      obtain ⟨v, hv, h⟩ := bind_eq_ok_iff.1 h
      obtain ⟨rest, hrest, -⟩ := bind_eq_ok_iff.1 h
      exact ⟨⟨v, hv⟩, ⟨rest, hrest⟩⟩
    · rintro ⟨⟨v, hv⟩, ⟨rest, hrest⟩⟩
      exact ⟨_, bind_eq_ok_iff.2 ⟨v, hv, bind_eq_ok_iff.2 ⟨rest, hrest, rfl⟩⟩⟩

/-- A field whose member comes next has not been filled, if that of a filled field cannot
come. -/
theorem eq_none_of_lookup_cons_self {α : Type} {field : Option α} {name : String}
    {v : AnnotationValue} {as : List (String × AnnotationValue)}
    (h : field.isSome = true → ((name, v) :: as).lookup name = none) : field = none := by
  rw [← Option.not_isSome_iff_eq_none]
  intro hsome
  have hnone := h hsome
  rw [List.lookup_cons_self] at hnone
  cases hnone

mutual

/-- What is passed as the arguments of an annotation is accepted if it is written as an object
of values. -/
theorem exists_set_arguments_iff : ∀ {v : AnnotationValue} {f : Annotation.Fields},
    v.All IsCanonical → f.arguments = none →
    ((∃ as, Annotation.set f "arguments" v.toJson = .ok { f with arguments := some as }) ↔
      v.readsAsArguments = true)
  | .bool _, f, _, hf | .integer _, f, _, hf | .string _, f, _, hf | .array _, f, _, hf => by
    constructor
    · rintro ⟨f', h⟩
      simp [toJson, Annotation.set, hf] at h
    · intro h
      cases h
  | .classLiteral ref, f, _, hf => by
    rw [toJson, set_arguments_object hf rfl]
    exact ⟨fun _ => rfl, fun _ => ⟨_, rfl⟩⟩
  | .nested (.mk type as), f, h, hf => by
    -- the two members are the type, which is a string, and the object of the arguments
    have hsorted : Sorted as := h.1
    have hreadable : Json.areMembersReadable
        [("type", .string type), ("arguments", .object (toMembers as))] = true := by
      simpa [Json.areMembersReadable, Json.isReadable] using areMembersReadable_toMembers h.2
    have hloop : (∃ f', Annotation.ofMembers .start (toMembers as) = .ok f' ∧
        f'.type.isSome = true) ↔
          (as.lookup "type").any isText = true ∧ argumentsRead as = true := by
      have hstart := @exists_ofMembers_toMembers_iff as .start h.2 hsorted nofun nofun
      simpa [ Annotation.Fields.start] using hstart
    rw [toJson, Annotation.toJson, set_arguments_object hf hreadable, readsAsArguments,
      Bool.or_eq_true, Bool.and_eq_true, ← hloop,
      ← exists_ofJson_object_iff hsorted]
    constructor
    · rintro ⟨rest, hrest⟩
      obtain ⟨_, hmembers, -⟩ := map_eq_ok_iff.1 hrest
      exact exists_ofMembers_iff.1 ⟨_, hmembers⟩ ("arguments", .object (toMembers as)) (by simp)
    · intro hv
      have hall : ∀ m ∈ [("type", Json.string type), ("arguments", .object (toMembers as))],
          ∃ v, ofJson m.2 = .ok v :=
        List.forall_mem_cons.2 ⟨⟨_, rfl⟩, by simpa using hv⟩
      obtain ⟨rest, hrest⟩ := exists_ofMembers_iff.2 hall
      exact ⟨rest, map_eq_ok_iff.2 ⟨rest, hrest, rfl⟩⟩

/-- The members of a written object are accepted as those of an annotation if the type is a
string and the arguments are written as an object of values. -/
theorem exists_ofMembers_toMembers_iff : ∀ {as : List (String × AnnotationValue)}
    {f : Annotation.Fields}, AllArguments IsCanonical as → Sorted as →
    (f.type.isSome = true → as.lookup "type" = none) →
    (f.arguments.isSome = true → as.lookup "arguments" = none) →
    ((∃ f', Annotation.ofMembers f (toMembers as) = .ok f' ∧ f'.type.isSome = true) ↔
      (f.type.isSome = true ∨ (as.lookup "type").any isText = true) ∧ argumentsRead as = true)
  | [], f, _, _, _, _ => by
    constructor
    · rintro ⟨_, ⟨⟩, htype⟩
      exact ⟨.inl htype, rfl⟩
    · rintro ⟨htype | htype, -⟩
      · exact ⟨f, rfl, htype⟩
      · cases htype
  | (name, v) :: as, f, hcanonical, hsorted, htype, harguments => by
    have hsorted' := (List.pairwise_cons.1 hsorted).2
    have habsent := hsorted.lookup_eq_none
    rw [toMembers, Annotation.ofMembers, argumentsRead, Bool.and_eq_true, Bool.or_eq_true]
    -- the member fills the arguments, or the type, or is skipped
    by_cases hargument : name = "arguments"
    · subst hargument
      have hfree : f.arguments = none := eq_none_of_lookup_cons_self harguments
      rw [lookup_cons_of_ne (by decide)] at htype ⊢
      have hih := fun rest => @exists_ofMembers_toMembers_iff as
        { f with arguments := some rest } hcanonical.2 hsorted' htype fun _ => habsent
      constructor
      · rintro ⟨f', h, hsome⟩
        obtain ⟨f₁, hset, hrest⟩ := bind_eq_ok_iff.1 h
        obtain ⟨rest, rfl⟩ := arguments_of_set hset
        obtain ⟨htext, hread⟩ := (hih rest).1 ⟨f', hrest, hsome⟩
        have hvalue := (exists_set_arguments_iff hcanonical.1 hfree).1 ⟨rest, hset⟩
        exact ⟨htext, .inr hvalue, hread⟩
      · rintro ⟨htext, hreads, hread⟩
        have hvalue := hreads.resolve_left (by simp)
        obtain ⟨rest, hset⟩ := (exists_set_arguments_iff hcanonical.1 hfree).2 hvalue
        obtain ⟨f', hrest, hsome⟩ := (hih rest).2 ⟨htext, hread⟩
        exact ⟨f', bind_eq_ok_iff.2 ⟨_, hset, hrest⟩, hsome⟩
    · rw [lookup_cons_of_ne hargument] at harguments
      have hread : (decide (name ≠ "arguments") = true ∨ v.readsAsArguments = true) ∧
          argumentsRead as = true ↔ argumentsRead as = true := by
        simp [hargument]
      rw [hread]
      by_cases hname : name = "type"
      · subst hname
        have hfree : f.type = none := eq_none_of_lookup_cons_self htype
        rw [set_type hfree, hfree, List.lookup_cons_self]
        by_cases htext : v.isText = true
        · cases v with
          | string s =>
            have hih := @exists_ofMembers_toMembers_iff as { f with type := some s }
              hcanonical.2 hsorted' (fun _ => habsent) harguments
            exact hih.trans (by simp [isText])
          | _ => cases htext
        · rw [toText_toJson v (Bool.not_eq_true _ ▸ htext)]
          constructor
          · rintro ⟨_, ⟨⟩, -⟩
          · rintro ⟨hsome | hsome, -⟩
            · cases hsome
            · exact absurd hsome htext
      · rw [lookup_cons_of_ne hname] at htype ⊢
        rw [set_of_ne hargument hname]
        exact exists_ofMembers_toMembers_iff hcanonical.2 hsorted' htype harguments

end

/-- A written array is decoded as an annotation if its items read as one. -/
theorem exists_annotation_iff : ∀ {items : List AnnotationValue}, AllItems IsCanonical items →
    ((∃ a, ( Annotation.ofItems .start Annotation.fieldNames (toItems items) >>=
        Annotation.Fields.complete) = .ok a) ↔ readsAsAnnotation items = true)
  | [], _ => ⟨nofun, nofun⟩
  | v :: items, h => by
    by_cases htext : v.isText = true
    · cases v with
      | string s =>
        -- the first item is the type, the second the arguments, and there is no third
        match items, h.2 with
        | [], _ => exact ⟨fun _ => rfl, fun _ => ⟨.mk s [], rfl⟩⟩
        | [w], hw =>
          rw [ readsAsAnnotation, ← @exists_set_arguments_iff w ⟨some s, none⟩ hw.1 rfl]
          constructor
          · rintro ⟨a, ha⟩
            obtain ⟨f, hf, -⟩ := bind_eq_ok_iff.1 ha
            obtain ⟨_, ⟨⟩, hf⟩ := bind_eq_ok_iff.1 hf
            obtain ⟨f', hf', -⟩ := bind_eq_ok_iff.1 hf
            obtain ⟨rest, rfl⟩ := arguments_of_set hf'
            exact ⟨rest, hf'⟩
          · rintro ⟨rest, hrest⟩
            refine ⟨.mk s rest, bind_eq_ok_iff.2 ⟨⟨some s, some rest⟩, ?_, rfl⟩⟩
            exact bind_eq_ok_iff.2 ⟨_, rfl, bind_eq_ok_iff.2 ⟨_, hrest, rfl⟩⟩
        | w :: u :: items, _ =>
          constructor
          · rintro ⟨a, ha⟩
            obtain ⟨f, hf, -⟩ := bind_eq_ok_iff.1 ha
            obtain ⟨_, ⟨⟩, hf⟩ := bind_eq_ok_iff.1 hf
            obtain ⟨f', -, hf⟩ := bind_eq_ok_iff.1 hf
            cases hf
          · intro hreads
            cases hreads
      | _ => cases htext
    -- no type can be decoded from the first item
    · constructor
      · rintro ⟨a, ha⟩
        obtain ⟨f, hf, -⟩ := bind_eq_ok_iff.1 ha
        obtain ⟨f', hf', -⟩ := bind_eq_ok_iff.1 hf
        rw [set_type rfl, toText_toJson v (Bool.not_eq_true _ ▸ htext)] at hf'
        cases hf'
      · intro hreads
        unfold readsAsAnnotation at hreads
        split at hreads
        · rename_i heq
          cases heq
          exact absurd rfl htext
        · rename_i heq
          cases heq
          exact absurd rfl htext
        · cases hreads

/-! ### The round trip -/

theorem addArgument_of_lt {name : String} {value : AnnotationValue} :
    ∀ {as : List (String × AnnotationValue)}, (∀ a ∈ as, name < a.1) →
      Annotation.addArgument name value as = (name, value) :: as
  | [], _ => rfl
  | (_, _) :: _, h => if_pos (h _ List.mem_cons_self)

theorem mem_of_mem_addArgument {name : String} {value : AnnotationValue}
    {a : String × AnnotationValue} :
    ∀ {as : List (String × AnnotationValue)}, a ∈ Annotation.addArgument name value as →
      a = (name, value) ∨ a ∈ as
  | [], h => .inl (List.mem_singleton.1 h)
  | (other, old) :: rest, h => by
    unfold Annotation.addArgument at h
    split at h
    · exact List.mem_cons.1 h
    · split at h
      · exact .inr h
      · rcases List.mem_cons.1 h with rfl | h
        · exact .inr List.mem_cons_self
        · exact (mem_of_mem_addArgument h).imp_right (List.mem_cons_of_mem _)

theorem name_mem_of_ofMembers {members : List (String × Json)} :
    ∀ {as : List (String × AnnotationValue)}, ofMembers members = .ok as →
      ∀ a ∈ as, ∃ m ∈ members, m.1 = a.1 := by
  induction members with
  | nil =>
    rintro as ⟨⟩
    nofun
  | cons m members ih =>
    intro as h a ha
    obtain ⟨name, value⟩ := m
    obtain ⟨v, -, h⟩ := bind_eq_ok_iff.1 h
    obtain ⟨rest, hrest, has⟩ := bind_eq_ok_iff.1 h
    cases has
    rcases mem_of_mem_addArgument ha with rfl | ha
    · exact ⟨_, List.mem_cons_self, rfl⟩
    · obtain ⟨m, hm, heq⟩ := ih hrest a ha
      exact ⟨m, List.mem_cons_of_mem _ hm, heq⟩

/-- The first of several written arguments is decoded in its place. -/
theorem addArgument_of_ofMembers {name : String} {v v' : AnnotationValue}
    {as rest : List (String × AnnotationValue)} (hsorted : Sorted ((name, v) :: as))
    (h : ofMembers (toMembers as) = .ok rest) :
    Annotation.addArgument name v' rest = (name, v') :: rest := by
  refine addArgument_of_lt fun a ha => ?_
  obtain ⟨m, hm, heq⟩ := name_mem_of_ofMembers h a ha
  have hname : m.1 ∈ as.map Prod.fst := map_fst_toMembers as ▸ List.mem_map_of_mem hm
  obtain ⟨b, hb, hbname⟩ := List.mem_map.1 hname
  rw [← heq, ← hbname]
  exact (List.pairwise_cons.1 hsorted).1 b hb

/-- The fields of a written annotation are its type and the arguments that are decoded. -/
theorem ofMembers_toJson {type : String} {as : List (String × AnnotationValue)}
    (h : AllArguments IsCanonical as) :
    ( Annotation.ofMembers .start
        [("type", .string type), ("arguments", .object (toMembers as))] >>=
          Annotation.Fields.complete) =
      (ofMembers (toMembers as)).map ( Annotation.mk type) := by
  have hset := @set_arguments_object ⟨some type, none⟩ rfl _ (areMembersReadable_toMembers h)
  show (( Annotation.set ⟨some type, none⟩ "arguments" (.object (toMembers as)) >>= .ok) >>=
    Annotation.Fields.complete) = _
  rw [hset]
  cases ofMembers (toMembers as) <;> rfl

mutual

/-- A canonical value is decoded as it was if and only if it is restorable. -/
theorem ofJson_toJson_iff : ∀ {v : AnnotationValue}, v.All IsCanonical →
    (ofJson v.toJson = .ok v ↔ v.All IsRestorable)
  | .bool _, _ | .string _, _ => ⟨fun _ => trivial, fun _ => rfl⟩
  | .integer n, h => ⟨fun _ => trivial, fun _ => if_pos h⟩
  | .classLiteral ref, _ => by
    have hclass : classOf? [("class", ref.toJson)] = (TypeRef.ofJson ref.toJson).toOption := rfl
    show _ ↔ ref.WellFormed
    rw [toJson, ofJson, hclass, ← TypeRef.ofJson_toJson_iff]
    cases TypeRef.ofJson ref.toJson with
    | ok ref' =>
      constructor
      · rintro ⟨⟩
        rfl
      · rintro ⟨⟩
        rfl
    | error e => exact ⟨nofun, nofun⟩
  | .nested (.mk type as), h => by
    -- no member is named `class`, so it is not taken for a class literal
    have hnone : classOf? [("type", .string type), ("arguments", .object (toMembers as))] =
      none := rfl
    have hrest := ofMembers_toMembers_iff h.2 h.1
    show _ ↔ True ∧ AllArguments IsRestorable as
    rw [true_and, ← hrest, toJson, Annotation.toJson, ofJson, hnone, ofMembers_toJson h.2]
    cases ofMembers (toMembers as) with
    | ok rest =>
      constructor
      · rintro ⟨⟩
        rfl
      · rintro ⟨⟩
        rfl
    | error e => exact ⟨nofun, nofun⟩
  | .array items, h => by
    -- it is tried as an annotation first, and only then as a list of values
    have hreads := exists_annotation_iff h.2
    have hitems := ofItems_toItems_iff h.2
    show _ ↔ readsAsAnnotation items = false ∧ AllItems IsRestorable items
    rw [← Bool.not_eq_true, ← hreads, ← hitems, toJson, ofJson]
    cases Annotation.ofItems .start Annotation.fieldNames (toItems items) >>=
        Annotation.Fields.complete with
    | ok a => exact ⟨nofun, fun h => absurd ⟨a, rfl⟩ h.1⟩
    | error e =>
      cases ofItems (toItems items) with
      | ok values =>
        constructor
        · rintro ⟨⟩
          exact ⟨nofun, rfl⟩
        · rintro ⟨-, ⟨⟩⟩
          rfl
      | error e' => exact ⟨nofun, nofun⟩

theorem ofItems_toItems_iff : ∀ {vs : List AnnotationValue}, AllItems IsCanonical vs →
    (ofItems (toItems vs) = .ok vs ↔ AllItems IsRestorable vs)
  | [], _ => ⟨fun _ => trivial, fun _ => rfl⟩
  | v :: vs, h => by
    rw [toItems, ofItems, AllItems, ← ofJson_toJson_iff h.1, ← ofItems_toItems_iff h.2,
      bind_eq_ok_iff]
    constructor
    · rintro ⟨v', hv, hvs⟩
      obtain ⟨rest, hrest, heq⟩ := bind_eq_ok_iff.1 hvs
      cases heq
      exact ⟨hv, hrest⟩
    · rintro ⟨hv, hvs⟩
      exact ⟨v, hv, bind_eq_ok_iff.2 ⟨vs, hvs, rfl⟩⟩

theorem ofMembers_toMembers_iff : ∀ {as : List (String × AnnotationValue)},
    AllArguments IsCanonical as → Sorted as →
    (ofMembers (toMembers as) = .ok as ↔ AllArguments IsRestorable as)
  | [], _, _ => ⟨fun _ => trivial, fun _ => rfl⟩
  | (name, v) :: as, h, hsorted => by
    rw [toMembers, ofMembers, AllArguments, ← ofJson_toJson_iff h.1,
      ← ofMembers_toMembers_iff h.2 (List.pairwise_cons.1 hsorted).2, bind_eq_ok_iff]
    constructor
    · rintro ⟨v', hv, has⟩
      obtain ⟨rest, hrest, heq⟩ := bind_eq_ok_iff.1 has
      rw [addArgument_of_ofMembers hsorted hrest] at heq
      cases heq
      exact ⟨hv, hrest⟩
    · rintro ⟨hv, has⟩
      refine ⟨v, hv, bind_eq_ok_iff.2 ⟨as, has, ?_⟩⟩
      rw [addArgument_of_ofMembers hsorted has]
      rfl

end

end AnnotationValue

open AnnotationValue in
/-- A canonical annotation is decoded as it was if and only if it is restorable. -/
theorem Annotation.ofJson_toJson_iff : ∀ {a : Annotation}, a.All IsCanonical →
    ( Annotation.ofJson a.toJson = .ok a ↔ a.All IsRestorable)
  | .mk type as, h => by
    have hrest := ofMembers_toMembers_iff h.2 h.1
    show ( Annotation.ofMembers .start
      [("type", .string type), ("arguments", .object (toMembers as))] >>=
        Annotation.Fields.complete) = _ ↔ True ∧ AllArguments IsRestorable as
    rw [true_and, ← hrest, ofMembers_toJson h.2,
      map_injective_eq_ok_iff fun _ _ heq => ( Annotation.mk.inj heq).2]

end ModelForge
