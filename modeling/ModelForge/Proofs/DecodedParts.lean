/-
The parts that decoded declarations are made of.

A declaration holds type references, annotations and places, in its properties, its companion
and its nested classes as well.  What holds of every part that is decoded holds of all parts of
every file that is decoded:

* `PartProperty` — a property of each kind of part, `SourceFile.All` what a file is all of
  whose parts have it;
* `SourceFile.all_of_decode` — the parts of a decoded file are decoded parts;
* `PartProperty.canonical` — the arguments of annotations are sorted, and all numbers are of
  64 bits; `SourceFile.canonical_of_decode` — decoded files are canonical.
-/
import ModelForge.Declaration.Json
import ModelForge.Proofs.AnnotationRoundTrip

namespace ModelForge

open Json

/-- A property of each kind of part that declarations are made of. -/
structure PartProperty where
  type : TypeRef → Prop
  annotation : Annotation → Prop
  location : Location → Prop

/-! ### Properties of all parts -/

section

variable (P : PartProperty)

/-- Whether all parts of a property have a property. -/
def PropertyDecl.All (p : PropertyDecl) : Prop :=
  P.type p.type ∧ (∀ a ∈ p.annotations, P.annotation a) ∧ ∀ l ∈ p.location, P.location l

/-- Whether all parts of a property that have been met have a property. -/
def PropertyDecl.Fields.All (f : Fields) : Prop :=
  (∀ t ∈ f.type, P.type t) ∧ (∀ as ∈ f.annotations, ∀ a ∈ as, P.annotation a) ∧
    ∀ found ∈ f.location, ∀ l ∈ found, P.location l

/-- Whether all parts of a companion object have a property. -/
def CompanionDecl.All (k : CompanionDecl) : Prop :=
  ∀ t ∈ k.superTypes, P.type t

/-- Whether all parts of an alias have a property. -/
def AliasDecl.All (a : AliasDecl) : Prop :=
  P.type a.target ∧ (∀ b ∈ a.annotations, P.annotation b) ∧ ∀ l ∈ a.location, P.location l

/-- Whether all parts of an alias that have been met have a property. -/
def AliasDecl.Fields.All (f : Fields) : Prop :=
  (∀ t ∈ f.target, P.type t) ∧ (∀ as ∈ f.annotations, ∀ a ∈ as, P.annotation a) ∧
    ∀ found ∈ f.location, ∀ l ∈ found, P.location l

/-- Whether all parts of a class outside its nested classes have a property. -/
def ClassDecl.AllOwn (c : ClassDecl) : Prop :=
  (∀ t ∈ c.superTypes, P.type t) ∧ (∀ a ∈ c.annotations, P.annotation a) ∧
    (∀ p ∈ c.properties, p.All P) ∧ (∀ k ∈ c.companion, k.All P) ∧ ∀ l ∈ c.location, P.location l

mutual

/-- Whether all parts of a class have a property. -/
def ClassDecl.All : ClassDecl → Prop
  | ⟨package, name, kind, typeParameters, superTypes, annotations, properties, companion, nested,
      isPrivate, location⟩ =>
    ClassDecl.AllOwn P ⟨package, name, kind, typeParameters, superTypes, annotations, properties,
      companion, nested, isPrivate, location⟩ ∧ ClassDecl.AllNested nested

/-- Whether all parts of several classes have a property. -/
def ClassDecl.AllNested : List ClassDecl → Prop
  | [] => True
  | c :: cs => c.All ∧ ClassDecl.AllNested cs

end

/-- Whether all parts of a class that have been met have a property. -/
structure ClassDecl.Fields.All (f : Fields) : Prop where
  superTypes : ∀ ts ∈ f.superTypes, ∀ t ∈ ts, P.type t
  annotations : ∀ as ∈ f.annotations, ∀ a ∈ as, P.annotation a
  properties : ∀ ps ∈ f.properties, ∀ p ∈ ps, p.All P
  companion : ∀ found ∈ f.companion, ∀ k ∈ found, k.All P
  nested : ∀ cs ∈ f.nested, ClassDecl.AllNested P cs
  location : ∀ found ∈ f.location, ∀ l ∈ found, P.location l

/-- Whether all parts of a declaration have a property. -/
def Declaration.All : Declaration → Prop
  | ofClass c => c.All P
  | ofAlias a => a.All P

/-- Whether all parts of a file have a property. -/
def SourceFile.All (f : SourceFile) : Prop :=
  ∀ d ∈ f.declarations, d.All P

end

/-! ### Parts of decoded declarations -/

/-- Whether the property holds of every part that is decoded from a value as it is read. -/
structure PartProperty.Decoded (P : PartProperty) : Prop where
  type : ∀ {v : Json} {t : TypeRef}, v.all isKeptInteger = true → TypeRef.ofJson v = .ok t →
    P.type t
  annotation : ∀ {v : Json} {a : Annotation}, v.all isKeptInteger = true →
    Annotation.ofJson v = .ok a → P.annotation a
  location : ∀ {v : Json} {l : Location}, v.all isKeptInteger = true →
    Location.ofJson v = .ok l → P.location l

section

variable {P : PartProperty}

theorem PropertyDecl.Fields.all_set (hP : P.Decoded) {f f' : Fields} {name : String} {value : Json}
    (hv : value.all isKeptInteger = true) (hf : f.All P) (h : f.set name value = .ok f') :
    f'.All P := by
  obtain ⟨htype, hannotations, hlocation⟩ := hf
  unfold Fields.set at h
  split at h
  · obtain ⟨_, -, rfl⟩ := bind_field_eq_ok h
    exact ⟨htype, hannotations, hlocation⟩
  · obtain ⟨t, ht, rfl⟩ := bind_field_eq_ok h
    exact ⟨forall_mem_some.2 (hP.type hv ht), hannotations, hlocation⟩
  · obtain ⟨as, has, rfl⟩ := bind_field_eq_ok h
    exact ⟨htype, forall_mem_some.2 (toList_yields hP.annotation hv has), hlocation⟩
  · obtain ⟨l, hl, rfl⟩ := bind_field_eq_ok h
    exact ⟨htype, hannotations, forall_mem_some.2 (toOptional_yields hP.location hv hl)⟩
  · cases h
    exact ⟨htype, hannotations, hlocation⟩

theorem PropertyDecl.all_of_ofJson (hP : P.Decoded) {v : Json} {d : PropertyDecl}
    (hv : v.all isKeptInteger = true) (h : PropertyDecl.ofJson v = .ok d) : d.All P := by
  refine Json.toRecord_yields (Fields.all_set hP)
    ⟨forall_mem_none, forall_mem_none, forall_mem_none⟩ ?_ hv h
  intro f d hf hd
  obtain ⟨_, -, hd⟩ := bind_eq_ok_iff.1 hd
  obtain ⟨t, ht, hd⟩ := bind_eq_ok_iff.1 hd
  cases hd
  exact ⟨hf.1 t (required_eq_ok_iff.1 ht), getD_yields hf.2.1 nofun, getD_yields hf.2.2 nofun⟩

theorem CompanionDecl.all_of_ofJson (hP : P.Decoded) {v : Json} {k : CompanionDecl}
    (hv : v.all isKeptInteger = true) (h : CompanionDecl.ofJson v = .ok k) : k.All P := by
  have hset : ∀ {f f' : Fields} {name : String} {value : Json}, value.all isKeptInteger = true →
      (∀ ts ∈ f.superTypes, ∀ t ∈ ts, P.type t) → f.set name value = .ok f' →
        ∀ ts ∈ f'.superTypes, ∀ t ∈ ts, P.type t := by
    intro f f' name value hv hf h
    unfold Fields.set at h
    split at h
    · obtain ⟨_, -, rfl⟩ := bind_field_eq_ok h
      exact hf
    · obtain ⟨_, -, rfl⟩ := bind_field_eq_ok h
      exact hf
    · obtain ⟨ts, hts, rfl⟩ := bind_field_eq_ok h
      exact forall_mem_some.2 (toList_yields hP.type hv hts)
    · cases h
      exact hf
  refine Json.toRecord_yields hset forall_mem_none ?_ hv h
  rintro f _ hf ⟨⟩
  exact getD_yields hf nofun

theorem AliasDecl.Fields.all_set (hP : P.Decoded) {f f' : Fields} {name : String} {value : Json}
    (hv : value.all isKeptInteger = true) (hf : f.All P) (h : f.set name value = .ok f') :
    f'.All P := by
  obtain ⟨htarget, hannotations, hlocation⟩ := hf
  unfold Fields.set at h
  split at h
  · obtain ⟨_, -, rfl⟩ := bind_field_eq_ok h
    exact ⟨htarget, hannotations, hlocation⟩
  · obtain ⟨_, -, rfl⟩ := bind_field_eq_ok h
    exact ⟨htarget, hannotations, hlocation⟩
  · obtain ⟨_, -, rfl⟩ := bind_field_eq_ok h
    exact ⟨htarget, hannotations, hlocation⟩
  · obtain ⟨t, ht, rfl⟩ := bind_field_eq_ok h
    exact ⟨forall_mem_some.2 (hP.type hv ht), hannotations, hlocation⟩
  · obtain ⟨as, has, rfl⟩ := bind_field_eq_ok h
    exact ⟨htarget, forall_mem_some.2 (toList_yields hP.annotation hv has), hlocation⟩
  · obtain ⟨l, hl, rfl⟩ := bind_field_eq_ok h
    exact ⟨htarget, hannotations, forall_mem_some.2 (toOptional_yields hP.location hv hl)⟩
  · cases h
    exact ⟨htarget, hannotations, hlocation⟩

theorem AliasDecl.all_of_ofJson (hP : P.Decoded) {v : Json} {a : AliasDecl}
    (hv : v.all isKeptInteger = true) (h : AliasDecl.ofJson v = .ok a) : a.All P := by
  refine Json.toRecord_yields (Fields.all_set hP)
    ⟨forall_mem_none, forall_mem_none, forall_mem_none⟩ ?_ hv h
  intro f a hf ha
  obtain ⟨_, -, ha⟩ := bind_eq_ok_iff.1 ha
  obtain ⟨t, ht, ha⟩ := bind_eq_ok_iff.1 ha
  cases ha
  exact ⟨hf.1 t (required_eq_ok_iff.1 ht), getD_yields hf.2.1 nofun, getD_yields hf.2.2 nofun⟩

theorem ClassDecl.Fields.all_setPlain (hP : P.Decoded) {f f' : Fields} {name : String}
    {value : Json} (hv : value.all isKeptInteger = true) (hf : f.All P)
    (h : f.setPlain name value = .ok f') : f'.All P := by
  unfold Fields.setPlain at h
  split at h
  · obtain ⟨_, -, rfl⟩ := bind_field_eq_ok h
    exact { hf with }
  · obtain ⟨_, -, rfl⟩ := bind_field_eq_ok h
    exact { hf with }
  · obtain ⟨_, -, rfl⟩ := bind_field_eq_ok h
    exact { hf with }
  · obtain ⟨_, -, rfl⟩ := bind_field_eq_ok h
    exact { hf with }
  · obtain ⟨ts, hts, rfl⟩ := bind_field_eq_ok h
    exact { hf with superTypes := forall_mem_some.2 (toList_yields hP.type hv hts) }
  · obtain ⟨as, has, rfl⟩ := bind_field_eq_ok h
    exact { hf with annotations := forall_mem_some.2 (toList_yields hP.annotation hv has) }
  · obtain ⟨ps, hps, rfl⟩ := bind_field_eq_ok h
    have hproperties := toList_yields (PropertyDecl.all_of_ofJson hP) hv hps
    exact { hf with properties := forall_mem_some.2 hproperties }
  · obtain ⟨k, hk, rfl⟩ := bind_field_eq_ok h
    have hcompanion := toOptional_yields (CompanionDecl.all_of_ofJson hP) hv hk
    exact { hf with companion := forall_mem_some.2 hcompanion }
  · obtain ⟨_, -, rfl⟩ := bind_field_eq_ok h
    exact { hf with }
  · obtain ⟨l, hl, rfl⟩ := bind_field_eq_ok h
    exact { hf with location := forall_mem_some.2 (toOptional_yields hP.location hv hl) }
  · cases h
    exact hf

theorem ClassDecl.all_of_complete {f : Fields} {c : ClassDecl} (hf : f.All P)
    (h : f.complete = .ok c) : c.All P := by
  obtain ⟨_, -, h⟩ := bind_eq_ok_iff.1 h
  cases h
  exact ⟨⟨getD_yields hf.superTypes nofun, getD_yields hf.annotations nofun,
    getD_yields hf.properties nofun, getD_yields hf.companion nofun,
    getD_yields hf.location nofun⟩, getD_yields hf.nested trivial⟩

theorem ClassDecl.all_start : Fields.start.All P :=
  ⟨forall_mem_none, forall_mem_none, forall_mem_none, forall_mem_none, forall_mem_none,
    forall_mem_none⟩

mutual

/-- The parts of a decoded class are decoded parts. -/
theorem ClassDecl.all_of_ofJson (hP : P.Decoded) : ∀ {v : Json} {c : ClassDecl},
    v.all isKeptInteger = true → ClassDecl.ofJson v = .ok c → c.All P
  | .object members, c, hv, h => by
    obtain ⟨f, hf, h⟩ := bind_eq_ok_iff.1 h
    exact all_of_complete (ClassDecl.all_ofMembers hP (allMembers_of_all hv) all_start hf) h
  | .array items, c, hv, h => by
    rw [ClassDecl.ofJson] at h
    obtain ⟨f, hf, h⟩ := bind_eq_ok_iff.1 h
    exact all_of_complete (ClassDecl.all_ofItems hP (allItems_of_all hv) all_start hf)
      (mapError_eq_ok_iff.1 h)
  | .null, _, _, h | .bool _, _, _, h | .integer _, _, _, h | .fraction, _, _, h
  | .string _, _, _, h | .unreadable, _, _, h => by cases h

/-- One more field leaves the parts decoded. -/
theorem ClassDecl.all_set (hP : P.Decoded) : ∀ {value : Json} {f f' : Fields} {name : String},
    value.all isKeptInteger = true → f.All P → ClassDecl.set f name value = .ok f' → f'.All P
  | .array items, f, f', name, hv, hf, h => by
    rw [ClassDecl.set] at h
    split at h
    · split at h
      · cases h
      · obtain ⟨cs, hcs, heq⟩ := bind_eq_ok_iff.1 h
        cases heq
        have hnested := ClassDecl.all_listOfJson hP (allItems_of_all hv) hcs
        exact { hf with nested := forall_mem_some.2 hnested }
    · exact Fields.all_setPlain hP hv hf h
  | .null, _, _, _, hv, hf, h | .bool _, _, _, _, hv, hf, h | .integer _, _, _, _, hv, hf, h
  | .fraction, _, _, _, hv, hf, h | .string _, _, _, _, hv, hf, h
  | .object _, _, _, _, hv, hf, h | .unreadable, _, _, _, hv, hf, h => by
    simp only [ClassDecl.set] at h
    split at h
    · split at h <;> cases h
    · exact Fields.all_setPlain hP hv hf h

theorem ClassDecl.all_ofMembers (hP : P.Decoded) :
    ∀ {members : List (String × Json)} {f f' : Fields},
      Json.allMembers isKeptInteger members = true → f.All P →
        ClassDecl.ofMembers f members = .ok f' → f'.All P
  | [], f, f', _, hf, h => by
    cases h
    exact hf
  | (name, value) :: members, f, f', hp, hf, h => by
    obtain ⟨hvalue, hmembers⟩ := Bool.and_eq_true_iff.1 hp
    obtain ⟨mid, hmid, hrest⟩ := bind_eq_ok_iff.1 h
    exact ClassDecl.all_ofMembers hP hmembers (ClassDecl.all_set hP hvalue hf hmid) hrest

theorem ClassDecl.all_ofItems (hP : P.Decoded) :
    ∀ {items : List Json} {f f' : Fields} {names : List String},
      Json.allItems isKeptInteger items = true → f.All P →
        ClassDecl.ofItems f names items = .ok f' → f'.All P
  | [], f, f', names, _, hf, h => by
    cases h
    exact hf
  | item :: items, f, f', names, hp, hf, h => by
    obtain ⟨hitem, hitems⟩ := Bool.and_eq_true_iff.1 hp
    cases names with
    | nil => cases h
    | cons name names =>
      obtain ⟨mid, hmid, hrest⟩ := bind_eq_ok_iff.1 h
      exact ClassDecl.all_ofItems hP hitems (ClassDecl.all_set hP hitem hf hmid) hrest

theorem ClassDecl.all_listOfJson (hP : P.Decoded) :
    ∀ {items : List Json} {cs : List ClassDecl}, Json.allItems isKeptInteger items = true →
      ClassDecl.listOfJson items = .ok cs → ClassDecl.AllNested P cs
  | [], _, _, h => by
    cases h
    trivial
  | item :: items, cs, hp, h => by
    obtain ⟨hitem, hitems⟩ := Bool.and_eq_true_iff.1 hp
    obtain ⟨c, hc, h⟩ := bind_eq_ok_iff.1 h
    obtain ⟨rest, hrest, heq⟩ := bind_eq_ok_iff.1 h
    cases heq
    exact ⟨ClassDecl.all_of_ofJson hP hitem hc, ClassDecl.all_listOfJson hP hitems hrest⟩

end

/-- The rest of a declaration's members has their properties. -/
theorem allMembers_takeFrom {members rest : List (String × Json)} :
    ∀ {found kind : Option DeclarationKind}, Json.allMembers isKeptInteger members = true →
      DeclarationKind.takeFrom found members = .ok (kind, rest) →
        Json.allMembers isKeptInteger rest = true := by
  induction members generalizing rest with
  | nil =>
    rintro found kind - ⟨⟩
    rfl
  | cons m members ih =>
    intro found kind hp h
    obtain ⟨hvalue, hmembers⟩ := Bool.and_eq_true_iff.1 hp
    unfold DeclarationKind.takeFrom at h
    split at h
    · obtain ⟨_, -, h⟩ := bind_eq_ok_iff.1 h
      exact ih hmembers h
    · obtain ⟨⟨kind', rest'⟩, hrest, heq⟩ := bind_eq_ok_iff.1 h
      cases heq
      exact Bool.and_eq_true_iff.2 ⟨hvalue, ih hmembers hrest⟩

theorem Declaration.all_of_ofBody (hP : P.Decoded) {kind : DeclarationKind} {body : Json}
    {d : Declaration} (hv : body.all isKeptInteger = true)
    (h : Declaration.ofBody kind body = .ok d) : d.All P := by
  unfold Declaration.ofBody at h
  split at h
  · split at h
    · obtain ⟨c, hc, rfl⟩ := map_eq_ok_iff.1 (mapError_eq_ok_iff.1 h)
      exact ClassDecl.all_of_ofJson hP hv hc
    · obtain ⟨a, ha, rfl⟩ := map_eq_ok_iff.1 (mapError_eq_ok_iff.1 h)
      exact AliasDecl.all_of_ofJson hP hv ha
  · cases h

theorem Declaration.all_of_ofJson (hP : P.Decoded) {v : Json} {d : Declaration}
    (hv : v.all isKeptInteger = true) (h : Declaration.ofJson v = .ok d) : d.All P := by
  unfold Declaration.ofJson at h
  split at h
  · obtain ⟨⟨kind, rest⟩, hrest, h⟩ := bind_eq_ok_iff.1 h
    obtain ⟨k, -, h⟩ := bind_eq_ok_iff.1 h
    refine Declaration.all_of_ofBody hP ?_ h
    exact (Json.all.eq_2 isKeptInteger rest).trans
      (allMembers_takeFrom (allMembers_of_all hv) hrest)
  · cases h
  · obtain ⟨k, -, h⟩ := bind_eq_ok_iff.1 h
    refine Declaration.all_of_ofBody hP ?_ h
    have hitems := (Bool.and_eq_true_iff.1 (allItems_of_all hv)).2
    exact (Json.all.eq_1 isKeptInteger _).trans hitems
  · cases h

theorem SourceFile.all_set (hP : P.Decoded) {found found' : Option (List Declaration)}
    {name : String} {value : Json} (hv : value.all isKeptInteger = true)
    (hfound : ∀ ds ∈ found, ∀ d ∈ ds, d.All P)
    (h : SourceFile.set found name value = .ok found') : ∀ ds ∈ found', ∀ d ∈ ds, d.All P := by
  unfold SourceFile.set at h
  split at h
  · obtain ⟨ds, hds, rfl⟩ := field_eq_ok h
    exact forall_mem_some.2 (toList_yields (Declaration.all_of_ofJson hP) hv hds)
  · cases h
    exact hfound

theorem SourceFile.all_of_declarationsOfJson (hP : P.Decoded) {v : Json} {ds : List Declaration}
    (hv : v.all isKeptInteger = true) (h : SourceFile.declarationsOfJson v = .ok ds) :
    ∀ d ∈ ds, d.All P := by
  refine toRecord_yields (Q := fun ds => ∀ d ∈ ds, d.All P) (SourceFile.all_set hP)
    forall_mem_none ?_ hv h
  rintro found _ hfound ⟨⟩
  exact getD_yields hfound nofun

/-- A file is what the value of its text is decoded as. -/
theorem SourceFile.decode_eq_ok_iff {path text : String} {f : SourceFile} :
    SourceFile.decode path text = .ok f ↔
      ∃ v, read text = some v ∧ SourceFile.declarationsOfJson v = .ok f.declarations ∧
        f.path = path := by
  rw [SourceFile.decode, map_eq_ok_iff]
  constructor
  · rintro ⟨ds, hds, rfl⟩
    obtain ⟨v, hread, hv⟩ := decodeText_eq_ok_iff.1 hds
    exact ⟨v, hread, hv, rfl⟩
  · rintro ⟨v, hread, hv, rfl⟩
    exact ⟨f.declarations, decodeText_eq_ok_iff.2 ⟨v, hread, hv⟩, rfl⟩

/-- The parts of a file that is read are decoded parts. -/
theorem SourceFile.all_of_decode (hP : P.Decoded) {path text : String} {f : SourceFile}
    (h : SourceFile.decode path text = .ok f) : f.All P := by
  obtain ⟨v, hread, hv, -⟩ := decode_eq_ok_iff.1 h
  exact SourceFile.all_of_declarationsOfJson hP (all_isKeptInteger_of_read hread) hv

end

/-! ### Canonical parts -/

namespace AnnotationValue

theorem sorted_addArgument {name : String} {value : AnnotationValue} :
    ∀ {as : List (String × AnnotationValue)}, Sorted as →
      Sorted ( Annotation.addArgument name value as)
  | [], _ => List.pairwise_singleton _ _
  | (other, old) :: rest, h => by
    obtain ⟨hlt, hsorted⟩ := List.pairwise_cons.1 h
    -- the name comes first, is there already, or comes further on
    unfold Annotation.addArgument
    split
    · rename_i hname
      refine List.pairwise_cons.2 ⟨List.forall_mem_cons.2 ⟨hname, fun a ha => ?_⟩, h⟩
      exact lt_trans hname (hlt a ha)
    · rename_i hle
      split
      · exact h
      · rename_i hne
        refine List.pairwise_cons.2 ⟨fun a ha => ?_, sorted_addArgument hsorted⟩
        rcases mem_of_mem_addArgument ha with rfl | ha
        · exact lt_of_le_of_ne (not_lt.1 hle) (Ne.symm hne)
        · exact hlt a ha

theorem allArguments_addArgument {p : AnnotationValue → Prop} {name : String}
    {value : AnnotationValue} (hvalue : value.All p) :
    ∀ {as : List (String × AnnotationValue)}, AllArguments p as →
      AllArguments p ( Annotation.addArgument name value as)
  | [], _ => ⟨hvalue, trivial⟩
  | (other, old) :: rest, h => by
    unfold Annotation.addArgument
    split
    · exact ⟨hvalue, h⟩
    · split
      · exact h
      · exact ⟨h.1, allArguments_addArgument hvalue h.2⟩

end AnnotationValue

section

open AnnotationValue

/-- Whether the arguments that have been met are canonical. -/
def Annotation.Fields.IsCanonical (f : Fields) : Prop :=
  ∀ as ∈ f.arguments, Sorted as ∧ AllArguments AnnotationValue.IsCanonical as

theorem Annotation.canonical_start : Fields.start.IsCanonical :=
  forall_mem_none

theorem Annotation.canonical_of_complete {f : Fields} {a : Annotation} (hf : f.IsCanonical)
    (h : f.complete = .ok a) : a.All AnnotationValue.IsCanonical := by
  obtain ⟨_, -, h⟩ := bind_eq_ok_iff.1 h
  cases h
  exact getD_yields hf ⟨.nil, trivial⟩

mutual

/-- A decoded value is canonical. -/
theorem AnnotationValue.canonical_of_ofJson : ∀ {v : Json} {a : AnnotationValue},
    AnnotationValue.ofJson v = .ok a → a.All AnnotationValue.IsCanonical
  | .bool _, _, h | .string _, _, h => by
    cases h
    trivial
  | .integer n, _, h => by
    rw [AnnotationValue.ofJson] at h
    split at h
    · cases h
      assumption
    · cases h
  | .null, _, h | .fraction, _, h | .unreadable, _, h => by cases h
  | .object members, a, h => by
    rw [AnnotationValue.ofJson] at h
    split at h
    · cases h
      trivial
    · split at h
      · rename_i b hb
        cases h
        obtain ⟨f, hf, hb⟩ := bind_eq_ok_iff.1 hb
        exact Annotation.canonical_of_complete
          ( Annotation.canonical_ofMembers Annotation.canonical_start hf) hb
      · cases h
  | .array items, a, h => by
    rw [AnnotationValue.ofJson] at h
    split at h
    · rename_i b hb
      cases h
      obtain ⟨f, hf, hb⟩ := bind_eq_ok_iff.1 hb
      exact Annotation.canonical_of_complete
        ( Annotation.canonical_ofItems Annotation.canonical_start hf) hb
    · split at h
      · rename_i vs hvs
        cases h
        exact ⟨trivial, AnnotationValue.canonical_of_ofItems hvs⟩
      · cases h

theorem AnnotationValue.canonical_of_ofItems : ∀ {items : List Json} {vs : List AnnotationValue},
    AnnotationValue.ofItems items = .ok vs → AllItems AnnotationValue.IsCanonical vs
  | [], _, h => by
    cases h
    trivial
  | _ :: _, _, h => by
    obtain ⟨v, hv, h⟩ := bind_eq_ok_iff.1 h
    obtain ⟨rest, hrest, heq⟩ := bind_eq_ok_iff.1 h
    cases heq
    exact ⟨AnnotationValue.canonical_of_ofJson hv, AnnotationValue.canonical_of_ofItems hrest⟩

theorem AnnotationValue.canonical_of_ofMembers : ∀ {members : List (String × Json)}
    {as : List (String × AnnotationValue)}, AnnotationValue.ofMembers members = .ok as →
      Sorted as ∧ AllArguments AnnotationValue.IsCanonical as
  | [], _, h => by
    cases h
    exact ⟨.nil, trivial⟩
  | (_, _) :: _, _, h => by
    obtain ⟨v, hv, h⟩ := bind_eq_ok_iff.1 h
    obtain ⟨rest, hrest, heq⟩ := bind_eq_ok_iff.1 h
    cases heq
    obtain ⟨hsorted, hall⟩ := AnnotationValue.canonical_of_ofMembers hrest
    exact ⟨sorted_addArgument hsorted,
      allArguments_addArgument (AnnotationValue.canonical_of_ofJson hv) hall⟩

theorem Annotation.canonical_set : ∀ {value : Json} {f f' : Annotation.Fields} {name : String},
    f.IsCanonical → Annotation.set f name value = .ok f' → f'.IsCanonical
  | .object members, f, f', name, hf, h => by
    rw [ Annotation.set] at h
    split at h
    · split at h
      · cases h
      · split at h
        · obtain ⟨as, has, heq⟩ := bind_eq_ok_iff.1 h
          cases heq
          exact forall_mem_some.2 (AnnotationValue.canonical_of_ofMembers has)
        · cases h
    · split at h
      · obtain ⟨_, -, rfl⟩ := bind_field_eq_ok h
        exact hf
      · cases h
        exact hf
  -- nothing but an object is accepted as the arguments
  | .null, _, _, _, hf, h | .bool _, _, _, _, hf, h | .integer _, _, _, _, hf, h
  | .fraction, _, _, _, hf, h | .string _, _, _, _, hf, h | .array _, _, _, _, hf, h
  | .unreadable, _, _, _, hf, h => by
    simp only [ Annotation.set] at h
    split at h
    · split at h <;> cases h
    · split at h
      · obtain ⟨_, -, rfl⟩ := bind_field_eq_ok h
        exact hf
      · cases h
        exact hf

theorem Annotation.canonical_ofMembers :
    ∀ {members : List (String × Json)} {f f' : Annotation.Fields},
      f.IsCanonical → Annotation.ofMembers f members = .ok f' → f'.IsCanonical
  | [], _, _, hf, h => by
    cases h
    exact hf
  | (_, _) :: _, _, _, hf, h => by
    obtain ⟨mid, hmid, hrest⟩ := bind_eq_ok_iff.1 h
    exact Annotation.canonical_ofMembers ( Annotation.canonical_set hf hmid) hrest

theorem Annotation.canonical_ofItems : ∀ {items : List Json} {f f' : Annotation.Fields}
    {names : List String}, f.IsCanonical → Annotation.ofItems f names items = .ok f' →
      f'.IsCanonical
  | [], _, _, _, hf, h => by
    cases h
    exact hf
  | item :: items, f, f', names, hf, h => by
    cases names with
    | nil => cases h
    | cons name names =>
      obtain ⟨mid, hmid, hrest⟩ := bind_eq_ok_iff.1 h
      exact Annotation.canonical_ofItems ( Annotation.canonical_set hf hmid) hrest

end

/-- A decoded annotation is canonical. -/
theorem Annotation.canonical_of_ofJson {v : Json} {a : Annotation}
    (h : Annotation.ofJson v = .ok a) : a.All AnnotationValue.IsCanonical := by
  unfold Annotation.ofJson at h
  split at h
  · obtain ⟨f, hf, ha⟩ := bind_eq_ok_iff.1 h
    exact canonical_of_complete (canonical_ofMembers canonical_start hf) ha
  · obtain ⟨f, hf, ha⟩ := bind_eq_ok_iff.1 h
    exact canonical_of_complete (canonical_ofItems canonical_start hf) (mapError_eq_ok_iff.1 ha)
  · cases h

end

/-- Whether line and column are of 64 bits. -/
def Location.Fits (l : Location) : Prop :=
  l.line < 2 ^ 64 ∧ l.column < 2 ^ 64

theorem Json.lt_of_toCount {v : Json} {n : Nat} (hv : v.all isKeptInteger = true)
    (h : toCount v = .ok n) : n < 2 ^ 64 := by
  cases v with
  | integer m =>
    have hkept : isKept m = true := hv
    rw [toCount] at h
    split at h
    · cases h
    · cases h
      have hbound := (isKept_iff.1 hkept).2
      omega
  | _ => cases h

theorem Location.fits_of_ofJson {v : Json} {l : Location} (hv : v.all isKeptInteger = true)
    (h : Location.ofJson v = .ok l) : l.Fits := by
  let I (f : Fields) : Prop := (∀ n ∈ f.line, n < 2 ^ 64) ∧ ∀ n ∈ f.column, n < 2 ^ 64
  have hset : ∀ {f f' : Fields} {name : String} {value : Json},
      value.all isKeptInteger = true → I f → f.set name value = .ok f' → I f' := by
    intro f f' name value hv hf h
    unfold Fields.set at h
    split at h
    · obtain ⟨_, -, rfl⟩ := bind_field_eq_ok h
      exact hf
    · obtain ⟨n, hn, rfl⟩ := bind_field_eq_ok h
      exact ⟨forall_mem_some.2 (lt_of_toCount hv hn), hf.2⟩
    · obtain ⟨n, hn, rfl⟩ := bind_field_eq_ok h
      exact ⟨hf.1, forall_mem_some.2 (lt_of_toCount hv hn)⟩
    · cases h
      exact hf
  refine Json.toRecord_yields hset ⟨forall_mem_none, forall_mem_none⟩ ?_ hv h
  intro f l hf hl
  obtain ⟨_, -, hl⟩ := bind_eq_ok_iff.1 hl
  cases hl
  have hpos : 0 < 2 ^ 64 := by decide
  exact ⟨getD_yields hf.1 hpos, getD_yields hf.2 hpos⟩

/-- What holds of all decoded parts: annotations are canonical, and numbers are of 64 bits. -/
def PartProperty.canonical : PartProperty :=
  ⟨fun _ => True, Annotation.All AnnotationValue.IsCanonical, Location.Fits⟩

theorem PartProperty.canonical_decoded : canonical.Decoded :=
  ⟨fun _ _ => trivial, fun _ => Annotation.canonical_of_ofJson, Location.fits_of_ofJson⟩

/-- A file that is read is canonical. -/
theorem SourceFile.canonical_of_decode {path text : String} {f : SourceFile}
    (h : SourceFile.decode path text = .ok f) : f.All .canonical :=
  all_of_decode PartProperty.canonical_decoded h

end ModelForge
