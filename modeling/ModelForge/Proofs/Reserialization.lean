/-
Which source files can be written and read again.

A file that has been read is written with its references in their displayed form, and with all
defaults filled in.  Reading this gives the same file if and only if

* the written form is not nested more deeply than a reader admits,
* every reference is one that can be written at all (a reference in object form may have any
  name), and
* no array that is passed to an annotation is taken for an annotation.

`SourceFile.decode_compact_iff` shows it for canonical files, `SourceFile.decode_toJson_iff` for
every file that is read.
-/
import ModelForge.Proofs.RecordRoundTrip

namespace ModelForge

open Json

/-! ### What is nested too deeply -/

theorem Json.map_fst_prunedMembers (room : Nat) (members : List (String × Json)) :
    (prunedMembers room members).map Prod.fst = members.map Prod.fst := by
  induction members with
  | nil => rfl
  | cons m members ih => rw [prunedMembers, List.map_cons, List.map_cons, ih]

namespace Declaration

/-- A declaration that is nested too deeply is refused. -/
theorem ofJson_pruned {d : Declaration} {room : Nat} (hroom : 0 < room)
    (hdepth : room < d.toJson.depth) (d' : Declaration) :
    ofJson (d.toJson.pruned room) ≠ .ok d' := by
  have hnames : ∀ m ∈ prunedMembers (room - 1) d.toMembers, m.1 ≠ "kind" := by
    intro m hm
    have hname := List.mem_map_of_mem (f := Prod.fst) hm
    rw [map_fst_prunedMembers] at hname
    obtain ⟨m', hm', heq⟩ := List.mem_map.1 hname
    rw [← heq]
    exact name_ne_of_mem_toMembers m' hm'
  have hmembers : room - 1 < depthOfMembers d.toMembers := by
    have hkind : (string d.kind.name).depth = 0 := rfl
    rw [toJson_eq, depth, depthOfMembers, hkind] at hdepth
    omega
  -- the kind is still read, and what follows it is not readable any more
  rw [toJson_eq, pruned, nest_of_pos hroom, prunedMembers]
  show ofJson (.object (("kind", .string d.kind.name) :: prunedMembers (room - 1) d.toMembers)) ≠ _
  rw [ofJson_kind _ hnames]
  unfold ofBody
  rw [isReadable, areMembersReadable_pruned _ _ hmembers]
  nofun

theorem mapM_pruned {room : Nat} (hroom : 0 < room) {ds : List Declaration} :
    room < depthOfItems (ds.map toJson) →
      ∀ ds', (prunedItems room (ds.map toJson)).mapM ofJson ≠ .ok ds' := by
  induction ds with
  | nil => nofun
  | cons d ds ih =>
    intro hdepth ds' h
    rw [List.map_cons, depthOfItems] at hdepth
    rw [List.map_cons, prunedItems, List.mapM_cons] at h
    obtain ⟨d', hd, h⟩ := bind_eq_ok_iff.1 h
    obtain ⟨rest, hrest, -⟩ := bind_eq_ok_iff.1 h
    rcases Nat.lt_or_ge room d.toJson.depth with hlt | hge
    · exact ofJson_pruned hroom hlt d' hd
    · exact ih (by omega) rest hrest

end Declaration

/-! ### Files -/

namespace SourceFile

/-- Whether every reference can be written, and no array of an annotation's argument is taken
for an annotation. -/
def Restorable (f : SourceFile) : Prop :=
  f.All .restorable

/-- The text of an exact value is decoded as what the value is decoded as. -/
theorem decode_compact {path : String} {v : Json} {ds : List Declaration}
    (hexact : v.isExact = true) (hdepth : v.depth ≤ maxDepth)
    (h : declarationsOfJson v = .ok ds) : decode path v.compact = .ok ⟨path, ds⟩ := by
  have hread := read_compact hexact
  rw [pruned_of_depth_le v _ hdepth] at hread
  exact decode_eq_ok_iff.2 ⟨v, hread, h, rfl⟩

theorem declarationsOfJson_object (v : Json) :
    declarationsOfJson (.object [("declarations", v)]) = toList Declaration.ofJson v := by
  rw [declarationsOfJson, toRecord, foldMembers, set, if_pos rfl, field_none]
  cases toList Declaration.ofJson v <;> rfl

theorem depth_toJson (f : SourceFile) :
    f.toJson.depth = depthOfItems (f.declarations.map Declaration.toJson) + 2 := by
  rw [toJson, depth, depthOfMembers, list, depth, depthOfMembers]
  omega

/-- A file that is nested too deeply is refused. -/
theorem declarationsOfJson_pruned {f : SourceFile} (hdepth : maxDepth < f.toJson.depth)
    (ds : List Declaration) : declarationsOfJson (f.toJson.pruned maxDepth) ≠ .ok ds := by
  have hmax : maxDepth = 127 := rfl
  rw [depth_toJson, hmax] at hdepth
  have hpruned : f.toJson.pruned maxDepth = .object [("declarations",
      .array (prunedItems 125 (f.declarations.map Declaration.toJson)))] := rfl
  rw [hpruned, declarationsOfJson_object]
  exact Declaration.mapM_pruned (by decide) (by omega) ds

theorem isExact_toJson {f : SourceFile} (h : f.All .canonical) : f.toJson.isExact = true := by
  rw [toJson, isExact_object_iff, List.forall_mem_singleton]
  exact isExact_list fun d hd => Declaration.isExact_toJson (h d hd)

/-- The declarations of a written file are decoded one by one. -/
theorem declarationsOfJson_toJson_iff {f : SourceFile} (h : f.All .canonical) :
    declarationsOfJson f.toJson = .ok f.declarations ↔ f.Restorable := by
  rw [toJson, declarationsOfJson_object, toList_list_iff]
  exact forall₂_congr fun d hd => Declaration.ofJson_toJson_iff (h d hd)

/-- A canonical file is read from what it is written as if and only if it is restorable and not
nested too deeply. -/
theorem decode_compact_iff {f : SourceFile} (h : f.All .canonical) :
    decode f.path f.toJson.compact = .ok f ↔ f.toJson.depth ≤ maxDepth ∧ f.Restorable := by
  rw [← declarationsOfJson_toJson_iff h]
  constructor
  · intro hdecode
    obtain ⟨v, hread, hv, -⟩ := decode_eq_ok_iff.1 hdecode
    rw [read_compact (isExact_toJson h)] at hread
    cases hread
    have hdepth : f.toJson.depth ≤ maxDepth := by
      by_contra hlt
      exact declarationsOfJson_pruned (Nat.lt_of_not_le hlt) _ hv
    rw [pruned_of_depth_le _ _ hdepth] at hv
    exact ⟨hdepth, hv⟩
  · rintro ⟨hdepth, hv⟩
    exact decode_compact (isExact_toJson h) hdepth hv

/-- **Writing and reading again.**  A file that has been read is read from what it is written as
if and only if what is written is nested no more deeply than a reader admits, every reference in
it can be written at all, and no array that is passed to an annotation is taken for an
annotation. -/
theorem decode_toJson_iff {path text : String} {f : SourceFile} (h : decode path text = .ok f) :
    decode path f.toJson.compact = .ok f ↔ f.toJson.depth ≤ maxDepth ∧ f.Restorable := by
  obtain ⟨-, -, -, rfl⟩ := decode_eq_ok_iff.1 h
  exact decode_compact_iff (canonical_of_decode h)

/-! ### Aliases of a type in object form -/

/-- A document that declares an alias of a type without arguments, with an argument of its
annotation. -/
def aliasDocument (target : String) (argument : Json) : Json :=
  .object [("declarations", .array [.object [("kind", .string "typeAlias"), ("name", .string "X"),
    ("type", .object [("name", .string target)]),
    ("annotations", .array [.object [("type", .string "T"),
      ("arguments", .object [("a", argument)])]])]])]

/-- The file of such an alias. -/
def aliasFile (target : String) (argument : AnnotationValue) : SourceFile :=
  ⟨"model.json", [.ofAlias ⟨"", "X", [], .named target, [.mk "T" [("a", argument)]], none⟩]⟩

theorem restorable_aliasFile_iff {target : String} {argument : AnnotationValue} :
    (aliasFile target argument).Restorable ↔
      (TypeRef.named target).WellFormed ∧ argument.All AnnotationValue.IsRestorable := by
  constructor
  · intro h
    obtain ⟨htarget, hannotations, -⟩ := h _ List.mem_cons_self
    exact ⟨htarget, (hannotations _ List.mem_cons_self).2.1⟩
  · rintro ⟨htarget, hargument⟩
    have hannotation : ( Annotation.mk "T" [("a", argument)]).All AnnotationValue.IsRestorable :=
      ⟨trivial, hargument, trivial⟩
    exact List.forall_mem_singleton.2
      ⟨htarget, List.forall_mem_singleton.2 hannotation, forall_mem_none⟩

theorem decode_toJson_iff_alias :
    ∃ f, decode "model.json" (aliasDocument "kotlin.Int" (.array [.integer 1,
        .object [("class", .object [("name", .string "kotlin.Int")])],
        .array [.string "s", .string "t"], .object [("type", .string "U")]])).compact = .ok f ∧
      decode "model.json" f.toJson.compact = .ok f := by
  have hread : decode "model.json" (aliasDocument "kotlin.Int" (.array [.integer 1,
      .object [("class", .object [("name", .string "kotlin.Int")])],
      .array [.string "s", .string "t"], .object [("type", .string "U")]])).compact =
    .ok (aliasFile "kotlin.Int" (.array [.integer 1, .classLiteral (.named "kotlin.Int"),
      .array [.string "s", .string "t"], .nested (.mk "U" [])])) :=
    decode_compact rfl (by decide) rfl
  have hint : (TypeRef.named "kotlin.Int").WellFormed := by
    have hsegments : segmentsOf "kotlin.Int".toList = ["kotlin".toList, "Int".toList] := by
      decide
    refine ⟨?_, trivial⟩
    rw [TypeRef.IsName, hsegments]
    simp only [List.forall_mem_cons]
    exact ⟨⟨by decide, List.all_eq_true.1 (by decide)⟩,
      ⟨by decide, List.all_eq_true.1 (by decide)⟩, List.forall_mem_nil _⟩
  refine ⟨_, hread, (decode_toJson_iff hread).2 ⟨by decide, restorable_aliasFile_iff.2 ⟨hint, ?_⟩⟩⟩
  exact ⟨rfl, trivial, hint, ⟨rfl, trivial, trivial, trivial⟩, ⟨trivial, trivial⟩, trivial⟩

set_option maxRecDepth 4000 in
/-- Each condition can fail for a file that has been read.  The first file is the alias of a type
without a name, the second passes an array of a text and a class literal, and in the third the
innermost annotation is written with its arguments, one level deeper than it was. -/
theorem exists_decode_toJson_ne :
    (∃ f, decode "model.json" (aliasDocument "" (.bool true)).compact = .ok f ∧
      decode "model.json" f.toJson.compact ≠ .ok f) ∧
    (∃ f, decode "model.json" (aliasDocument "A" (.array [.string "s",
        .object [("class", .object [("name", .string "A")])]])).compact = .ok f ∧
      decode "model.json" f.toJson.compact ≠ .ok f) ∧
    ∃ f, decode "model.json" (aliasDocument "A"
        (Nat.repeat (fun v => .array [v]) 120 (.object [("type", .string "U")]))).compact = .ok f ∧
      decode "model.json" f.toJson.compact ≠ .ok f := by
  refine ⟨?_, ?_, ?_⟩
  · have hread : decode "model.json" (aliasDocument "" (.bool true)).compact =
        .ok (aliasFile "" (.bool true)) := decode_compact rfl (by decide) rfl
    -- the type is written as the empty text
    refine ⟨_, hread, fun h => ?_⟩
    have hrestorable := ((decode_compact_iff (canonical_of_decode hread)).1 h).2
    have hname := (restorable_aliasFile_iff.1 hrestorable).1.1
    exact (hname [] (by decide)).ne_nil rfl
  · have hread : decode "model.json" (aliasDocument "A" (.array [.string "s",
        .object [("class", .object [("name", .string "A")])]])).compact =
      .ok (aliasFile "A" (.array [.string "s", .classLiteral (.named "A")])) :=
      decode_compact rfl (by decide) rfl
    -- the class literal is written as an object, as the arguments of an annotation are
    refine ⟨_, hread, fun h => ?_⟩
    have hrestorable := ((decode_compact_iff (canonical_of_decode hread)).1 h).2
    have harray := (restorable_aliasFile_iff.1 hrestorable).2.1
    cases harray
  · have hread : decode "model.json" (aliasDocument "A"
        (Nat.repeat (fun v => .array [v]) 120 (.object [("type", .string "U")]))).compact =
      .ok (aliasFile "A" (Nat.repeat (fun v => .array [v]) 120 (.nested (.mk "U" [])))) :=
      decode_compact (by decide +kernel) (by decide +kernel) rfl
    refine ⟨_, hread, fun h => ?_⟩
    have hdepth := ((decode_compact_iff (canonical_of_decode hread)).1 h).1
    revert hdepth
    decide +kernel

end SourceFile

end ModelForge
