/-
What the decoders of records give.

A record is collected field by field, whichever of its two forms it has.  So what holds of the
fields that nothing has been met of, and is kept by each further field, holds of the record:

* `Json.bind_eq_ok_iff`, `Json.mapError_eq_ok_iff` — when a decoder gives a value;
* `Json.bind_field_eq_ok` — what a field that is met adds to those before it;
* `Json.toRecord_yields` — what holds of a record that is decoded;
* `Json.toList_list_iff`, `Json.toOptional_optional_iff` — when lists and optional values that
  are written are decoded as they were.
-/
import ModelForge.Json.Decode
import ModelForge.Proofs.ReaderSteps

namespace ModelForge.Json

section

variable {α β σ : Type}

theorem bind_eq_ok_iff {d : Decoded α} {f : α → Decoded β} {b : β} :
    d >>= f = .ok b ↔ ∃ a, d = .ok a ∧ f a = .ok b := by
  cases d with
  | error e => exact ⟨nofun, nofun⟩
  | ok a =>
    constructor
    · exact fun h => ⟨a, rfl, h⟩
    · rintro ⟨_, ⟨⟩, h⟩
      exact h

theorem map_eq_ok_iff {ε : Type} {d : Except ε α} {f : α → β} {b : β} :
    d.map f = .ok b ↔ ∃ a, d = .ok a ∧ f a = b := by
  cases d with
  | error e => exact ⟨nofun, nofun⟩
  | ok a =>
    constructor
    · rintro ⟨⟩
      exact ⟨a, rfl, rfl⟩
    · rintro ⟨_, ⟨⟩, rfl⟩
      rfl

theorem map_injective_eq_ok_iff {ε : Type} {d : Except ε α} {f : α → β}
    (hf : Function.Injective f) {a : α} : d.map f = .ok (f a) ↔ d = .ok a := by
  rw [map_eq_ok_iff]
  constructor
  · rintro ⟨b, hb, heq⟩
    rw [hb, hf heq]
  · exact fun h => ⟨a, h, rfl⟩

theorem mapError_eq_ok_iff {ε ε' : Type} {d : Except ε α} {f : ε → ε'} {a : α} :
    d.mapError f = .ok a ↔ d = .ok a := by
  cases d with
  | error e => exact ⟨nofun, nofun⟩
  | ok b =>
    constructor
    · rintro ⟨⟩
      rfl
    · rintro ⟨⟩
      rfl

/-- A text is decoded if it can be read and its value is. -/
theorem decodeText_eq_ok_iff {decode : Json → Decoded α} {text : String} {a : α} :
    decodeText decode text = .ok a ↔ ∃ v, read text = some v ∧ decode v = .ok a := by
  unfold decodeText
  cases read text with
  | none => exact ⟨nofun, nofun⟩
  | some v =>
    dsimp only
    cases h : decode v with
    | ok b =>
      constructor
      · rintro ⟨⟩
        exact ⟨v, rfl, h⟩
      · rintro ⟨_, ⟨⟩, ha⟩
        rw [h] at ha
        cases ha
        rfl
    | error e =>
      constructor
      · nofun
      · rintro ⟨_, ⟨⟩, ha⟩
        rw [h] at ha
        cases ha

/-! ### Records -/

theorem field_eq_ok {name : String} {given found : Option α} {decode : Json → Decoded α}
    {value : Json} (h : field name given decode value = .ok found) :
    ∃ a, decode value = .ok a ∧ found = some a := by
  unfold field at h
  split at h
  · cases h
  · obtain ⟨a, ha, rfl⟩ := map_eq_ok_iff.1 h
    exact ⟨a, ha, rfl⟩

/-- A field that is met changes the fields by its decoded value. -/
theorem bind_field_eq_ok {name : String} {given : Option α} {decode : Json → Decoded α}
    {value : Json} {update : Option α → σ} {s : σ}
    (h : (do return update (← field name given decode value)) = Except.ok s) :
    ∃ a, decode value = .ok a ∧ s = update (some a) := by
  obtain ⟨found, hfound, hs⟩ := bind_eq_ok_iff.1 h
  cases hs
  obtain ⟨a, ha, rfl⟩ := field_eq_ok hfound
  exact ⟨a, ha, rfl⟩

/-- A field that has not been met takes the decoded value. -/
theorem field_none (name : String) (decode : Json → Decoded α) (value : Json) :
    field name none decode value = (decode value).map some :=
  rfl

theorem required_eq_ok_iff {name : String} {found : Option α} {a : α} :
    required name found = .ok a ↔ found = some a := by
  cases found with
  | none => exact ⟨nofun, nofun⟩
  | some b =>
    constructor
    · rintro ⟨⟩
      rfl
    · rintro ⟨⟩
      rfl

theorem forall_mem_none {Q : α → Prop} : ∀ a ∈ (none : Option α), Q a :=
  nofun

theorem forall_mem_some {Q : α → Prop} {b : α} : (∀ a ∈ some b, Q a) ↔ Q b := by
  simp

/-- What holds of the given value and of the default holds of the field. -/
theorem getD_yields {Q : α → Prop} {found : Option α} {default : α} (hfound : ∀ a ∈ found, Q a)
    (hdefault : Q default) : Q (found.getD default) := by
  cases found with
  | none => exact hdefault
  | some a => exact hfound a rfl

variable {p : Json → Bool} {I : σ → Prop} {set : σ → String → Json → Decoded σ}

section

variable (hset : ∀ {s s' : σ} {name : String} {value : Json}, value.all p = true → I s →
  set s name value = .ok s' → I s')
include hset

theorem foldMembers_keeps {members : List (String × Json)} :
    ∀ {s s' : σ}, allMembers p members = true → I s → foldMembers set s members = .ok s' →
      I s' := by
  induction members with
  | nil =>
    rintro s s' - hs ⟨⟩
    exact hs
  | cons m members ih =>
    intro s s' hp hs h
    obtain ⟨hvalue, hmembers⟩ := Bool.and_eq_true_iff.1 hp
    obtain ⟨mid, hmid, hrest⟩ := bind_eq_ok_iff.1 h
    exact ih hmembers (hset hvalue hs hmid) hrest

theorem foldItems_keeps {items : List Json} :
    ∀ {s s' : σ} {names : List String}, allItems p items = true → I s →
      foldItems set s names items = .ok s' → I s' := by
  induction items with
  | nil =>
    rintro s s' names - hs h
    rw [foldItems] at h
    cases h
    exact hs
  | cons item items ih =>
    intro s s' names hp hs h
    obtain ⟨hitem, hitems⟩ := Bool.and_eq_true_iff.1 hp
    cases names with
    | nil => cases h
    | cons name names =>
      obtain ⟨mid, hmid, hrest⟩ := bind_eq_ok_iff.1 h
      exact ih hitems (hset hitem hs hmid) hrest

/-- What holds at the start and is kept by every field holds of the fields of the record. -/
theorem toRecord_yields {Q : α → Prop} {names : List String} {start : σ}
    {complete : σ → Decoded α} (hstart : I start)
    (hcomplete : ∀ {s : σ} {a : α}, I s → complete s = .ok a → Q a) {v : Json} {a : α}
    (hv : v.all p = true) (h : toRecord names start set complete v = .ok a) : Q a := by
  cases v with
  | object members =>
    obtain ⟨s, hs, ha⟩ := bind_eq_ok_iff.1 h
    exact hcomplete (foldMembers_keeps hset (allMembers_of_all hv) hstart hs) ha
  | array items =>
    obtain ⟨s, hs, ha⟩ := bind_eq_ok_iff.1 h
    exact hcomplete (foldItems_keeps hset (allItems_of_all hv) hstart hs)
      (mapError_eq_ok_iff.1 ha)
  | _ => cases h

end

/-! ### Lists and optional values -/

theorem mapM_yields {Q : α → Prop} {decode : Json → Decoded α}
    (hdecode : ∀ {v : Json} {a : α}, v.all p = true → decode v = .ok a → Q a) {items : List Json} :
    ∀ {as : List α}, allItems p items = true → items.mapM decode = .ok as → ∀ a ∈ as, Q a := by
  induction items with
  | nil =>
    rintro as - ⟨⟩
    nofun
  | cons item items ih =>
    intro as hp h
    obtain ⟨hitem, hitems⟩ := Bool.and_eq_true_iff.1 hp
    rw [List.mapM_cons] at h
    obtain ⟨a, ha, h⟩ := bind_eq_ok_iff.1 h
    obtain ⟨rest, hrest, has⟩ := bind_eq_ok_iff.1 h
    cases has
    exact List.forall_mem_cons.2 ⟨hdecode hitem ha, ih hitems hrest⟩

/-- What holds of every decoded item holds of the list. -/
theorem toList_yields {Q : α → Prop} {decode : Json → Decoded α}
    (hdecode : ∀ {v : Json} {a : α}, v.all p = true → decode v = .ok a → Q a) {v : Json}
    {as : List α} (hv : v.all p = true) (h : toList decode v = .ok as) : ∀ a ∈ as, Q a := by
  cases v with
  | array items => exact mapM_yields hdecode (allItems_of_all hv) h
  | _ => cases h

/-- What holds of every decoded value holds of an optional one. -/
theorem toOptional_yields {Q : α → Prop} {decode : Json → Decoded α}
    (hdecode : ∀ {v : Json} {a : α}, v.all p = true → decode v = .ok a → Q a) {v : Json}
    {found : Option α} (hv : v.all p = true) (h : toOptional decode v = .ok found) :
    ∀ a ∈ found, Q a := by
  unfold toOptional at h
  split at h
  · cases h
    nofun
  · obtain ⟨a, ha, rfl⟩ := map_eq_ok_iff.1 h
    rintro _ ⟨⟩
    exact hdecode hv ha

variable {encode : α → Json} {decode : Json → Decoded α}

/-- A list that is written is decoded as it was if and only if all its items are. -/
theorem toList_list_iff {as : List α} :
    toList decode (list encode as) = .ok as ↔ ∀ a ∈ as, decode (encode a) = .ok a := by
  show (as.map encode).mapM decode = .ok as ↔ _
  induction as with
  | nil => exact ⟨fun _ => nofun, fun _ => rfl⟩
  | cons a as ih =>
    rw [List.map_cons, List.mapM_cons, List.forall_mem_cons, ← ih, bind_eq_ok_iff]
    constructor
    · rintro ⟨a', ha, h⟩
      obtain ⟨as', has, heq⟩ := bind_eq_ok_iff.1 h
      cases heq
      exact ⟨ha, has⟩
    · rintro ⟨ha, has⟩
      exact ⟨a, ha, bind_eq_ok_iff.2 ⟨as, has, rfl⟩⟩

theorem toOptional_optional_iff (hne : ∀ a, encode a ≠ null) {found : Option α} :
    toOptional decode (optional encode found) = .ok found ↔
      ∀ a ∈ found, decode (encode a) = .ok a := by
  cases found with
  | none => exact ⟨fun _ => nofun, fun _ => rfl⟩
  | some a =>
    rw [optional, toOptional.eq_2 decode _ (hne a), map_eq_ok_iff]
    constructor
    · rintro ⟨_, ha, ⟨⟩⟩ _ ⟨⟩
      exact ha
    · exact fun h => ⟨a, h a rfl, rfl⟩

end

end ModelForge.Json
