/-
What an index holds, and why none is built.

A class is entered under a name that is put together on the way down to it, and with a copy of
what is nested in it.  The names alone decide whether there is an index:

* `SourceFile.occurrences` — all places at which something is declared, nested classes before
  their outer class, each with its name in full;
* `Occurrence.EnteredAs` — the entry that stands for such a place (`forall₂_occurrences`);
* `IndexEntry.NestedFirst` — what an entry lists as nested has been entered before it, as it is
  listed;
* `FirstRepeated` — the first name that has occurred before, and the files of both places.  There
  is at most one (`FirstRepeated.unique`), and it is what a refusal names.

The statement about all of this is `DeclarationIndex.build_spec`.
-/
import Mathlib.Data.List.Forall2
import ModelForge.Proofs.LoadOrder

namespace ModelForge

/-! ### Places of declarations -/

/-- A place where something is declared: the name in full, what is written there, and the path
of the file. -/
structure Occurrence where
  name : String
  written : Declaration
  origin : String

namespace ClassDecl

mutual

/-- The places in a class of the given name in full: those in what is nested in it, then the
class. -/
def occurrencesAs (origin name : String) : ClassDecl → List Occurrence
  | ⟨package, own, kind, typeParameters, superTypes, annotations, properties, companion, nested,
      isPrivate, location⟩ =>
    occurrencesNested origin name nested ++
      [⟨name, .ofClass ⟨package, own, kind, typeParameters, superTypes, annotations, properties,
        companion, nested, isPrivate, location⟩, origin⟩]

/-- The places in the classes that are nested in the class of the given name in full. -/
def occurrencesNested (origin outer : String) : List ClassDecl → List Occurrence
  | [] => []
  | c :: cs =>
    occurrencesAs origin (outer ++ "." ++ c.name) c ++ occurrencesNested origin outer cs

end

end ClassDecl

/-- The places in a declaration. -/
def Declaration.occurrences (origin : String) : Declaration → List Occurrence
  | ofClass c => c.occurrencesAs origin c.qualifiedName
  | ofAlias a => [⟨a.qualifiedName, .ofAlias a, origin⟩]

/-- The places in a file, in load order. -/
def SourceFile.occurrences (f : SourceFile) : List Occurrence :=
  f.declarations.flatMap (Declaration.occurrences f.path)

/-- How what is declared at a place is entered: an alias as it is; a class under its name in
full, whatever package it states, with what is nested in it listed under the names in full.  All
else is as it is written. -/
inductive Occurrence.EnteredAs : Occurrence → IndexEntry → Prop
  | ofAlias (a : AliasDecl) (origin : String) :
    EnteredAs ⟨a.qualifiedName, .ofAlias a, origin⟩ ⟨.ofAlias a, origin⟩
  | ofClass (c : ClassDecl) (package name origin : String) (nested : List ClassDecl)
    (listed : nested.map ClassDecl.qualifiedName =
      c.nested.map fun n => qualify package name ++ "." ++ n.name) :
    EnteredAs ⟨qualify package name, .ofClass c, origin⟩
      ⟨.ofClass { c with package := package, name := name, nested := nested }, origin⟩

theorem qualify_append (package outer name : String) :
    qualify package (outer ++ name) = qualify package outer ++ name := by
  unfold qualify
  split
  · rfl
  · rw [String.append_assoc, String.append_assoc, String.append_assoc]

namespace ClassDecl

/-- The entry of a class from a file. -/
def entry (origin : String) (c : ClassDecl) : IndexEntry :=
  ⟨.ofClass c, origin⟩

theorem qualifiedName_shallowNested (package outer : String) (nested : List ClassDecl) :
    (shallowNested package outer nested).map qualifiedName =
      nested.map fun n => qualify package outer ++ "." ++ n.name := by
  rw [shallowNested, List.map_map]
  refine List.map_congr_left fun n _ => ?_
  show qualify package (outer ++ "." ++ n.name) = _
  rw [qualify_append, qualify_append]

mutual

theorem forall₂_occurrencesAs (origin package name : String) : ∀ c : ClassDecl,
    List.Forall₂ Occurrence.EnteredAs (c.occurrencesAs origin (qualify package name))
      ((c.flattenAs package name).map (entry origin))
  | ⟨_, _, _, _, _, _, _, _, nested, _, _⟩ => by
    rw [occurrencesAs, flattenAs, List.map_append]
    refine List.rel_append (forall₂_occurrencesNested origin package name nested) ?_
    exact .cons (.ofClass _ package name origin _ (qualifiedName_shallowNested _ _ _)) .nil

theorem forall₂_occurrencesNested (origin package outer : String) : ∀ cs : List ClassDecl,
    List.Forall₂ Occurrence.EnteredAs (occurrencesNested origin (qualify package outer) cs)
      ((flattenNested package outer cs).map (entry origin))
  | [] => by
    rw [occurrencesNested, flattenNested]
    exact .nil
  | c :: cs => by
    -- the name in full grows by the name of the class, as the name under the package does
    have hname :
        qualify package outer ++ "." ++ c.name = qualify package (outer ++ "." ++ c.name) := by
      rw [qualify_append, qualify_append]
    rw [occurrencesNested, flattenNested, List.map_append, hname]
    exact List.rel_append (forall₂_occurrencesAs origin package _ c)
      (forall₂_occurrencesNested origin package outer cs)

end

end ClassDecl

theorem Declaration.forall₂_occurrences (origin : String) (d : Declaration) :
    List.Forall₂ Occurrence.EnteredAs (d.occurrences origin) (d.flatten.map (⟨·, origin⟩)) := by
  cases d with
  | ofAlias a => exact .cons (.ofAlias a origin) .nil
  | ofClass c =>
    rw [flatten, List.map_map]
    exact c.forall₂_occurrencesAs origin c.package c.name

theorem SourceFile.forall₂_occurrences (files : List SourceFile) :
    List.Forall₂ Occurrence.EnteredAs (files.flatMap occurrences) (files.flatMap entries) := by
  have hfile : ∀ f : SourceFile, List.Forall₂ Occurrence.EnteredAs f.occurrences f.entries := by
    intro f
    rw [occurrences, entries, List.map_flatMap]
    induction f.declarations with
    | nil => exact .nil
    | cons d ds ih => exact List.rel_append (d.forall₂_occurrences f.path) ih
  induction files with
  | nil => exact .nil
  | cons f files ih => exact List.rel_append (hfile f) ih

/-! ### Nested classes first -/

/-- What an entry lists as nested has been entered before it from the same file, and is listed as
it has been entered, but for what is nested in it in turn. -/
def IndexEntry.NestedFirst (es : List IndexEntry) : Prop :=
  ∀ earlier c origin later, es = earlier ++ ⟨.ofClass c, origin⟩ :: later →
    ∀ n ∈ c.nested, ∃ n', ⟨.ofClass n', origin⟩ ∈ earlier ∧ n = n'.shallow

namespace IndexEntry

theorem nestedFirst_nil : NestedFirst [] := by
  intro earlier c origin later h
  cases earlier with
  | nil => cases h
  | cons e earlier => cases h

theorem NestedFirst.append {es fs : List IndexEntry} (hes : NestedFirst es)
    (hfs : NestedFirst fs) : NestedFirst (es ++ fs) := by
  intro earlier c origin later h n hn
  rcases List.append_eq_append_iff.1 h with ⟨between, rfl, hafter⟩ | ⟨between, rfl, hbefore⟩
  · obtain ⟨n', hmem, heq⟩ := hfs between c origin later hafter n hn
    exact ⟨n', List.mem_append_right es hmem, heq⟩
  · rcases List.cons_eq_append_iff.1 hbefore with ⟨rfl, hafter⟩ | ⟨rest, rfl, -⟩
    · -- the entry is the first one of the second list
      obtain ⟨n', hmem, -⟩ := hfs [] c origin later hafter n hn
      cases hmem
    · exact hes earlier c origin rest rfl n hn

/-- A class may follow what is nested in it. -/
theorem NestedFirst.concat {es : List IndexEntry} {c : ClassDecl} {origin : String}
    (hes : NestedFirst es)
    (hnested : ∀ n ∈ c.nested, ∃ n', ⟨.ofClass n', origin⟩ ∈ es ∧ n = n'.shallow) :
    NestedFirst (es ++ [⟨.ofClass c, origin⟩]) := by
  intro earlier c' origin' later h n hn
  rcases List.append_eq_append_iff.1 h with ⟨between, rfl, hafter⟩ | ⟨between, rfl, hbefore⟩
  · cases between with
    | nil =>
      obtain ⟨heq, -⟩ := List.cons.inj hafter
      cases heq
      rw [List.append_nil]
      exact hnested n hn
    | cons e between => simp at hafter
  · rcases List.cons_eq_append_iff.1 hbefore with ⟨rfl, hafter⟩ | ⟨rest, rfl, -⟩
    · obtain ⟨heq, -⟩ := List.cons.inj hafter
      cases heq
      rw [List.append_nil] at hnested
      exact hnested n hn
    · exact hes earlier c' origin' rest rfl n hn

end IndexEntry

namespace ClassDecl

open IndexEntry

/-- A class is entered itself, after what is nested in it. -/
theorem exists_mem_flattenAs (package name : String) (c : ClassDecl) :
    ∃ c' ∈ c.flattenAs package name, (c.renamed package name).shallow = c'.shallow := by
  obtain ⟨_, _, _, _, _, _, _, _, nested, _, _⟩ := c
  rw [flattenAs]
  exact ⟨_, List.mem_append_right _ List.mem_cons_self, rfl⟩

theorem exists_mem_flattenNested (package outer : String) {c : ClassDecl} :
    ∀ {cs : List ClassDecl}, c ∈ cs → ∃ c' ∈ flattenNested package outer cs,
      (c.renamed package (outer ++ "." ++ c.name)).shallow = c'.shallow
  | d :: cs, hc => by
    rw [flattenNested]
    rcases List.mem_cons.1 hc with rfl | hc
    · obtain ⟨c', hmem, heq⟩ := c.exists_mem_flattenAs package (outer ++ "." ++ c.name)
      exact ⟨c', List.mem_append_left _ hmem, heq⟩
    · obtain ⟨c', hmem, heq⟩ := exists_mem_flattenNested package outer hc
      exact ⟨c', List.mem_append_right _ hmem, heq⟩

mutual

theorem nestedFirst_flattenAs (origin package name : String) : ∀ c : ClassDecl,
    NestedFirst ((c.flattenAs package name).map (entry origin))
  | ⟨_, _, _, _, _, _, _, _, nested, _, _⟩ => by
    rw [flattenAs, List.map_append]
    refine (nestedFirst_flattenNested origin package name nested).concat fun n hn => ?_
    obtain ⟨c, hc, rfl⟩ := List.mem_map.1 hn
    obtain ⟨c', hmem, heq⟩ := exists_mem_flattenNested package name hc
    exact ⟨c', List.mem_map_of_mem hmem, heq⟩

theorem nestedFirst_flattenNested (origin package outer : String) : ∀ cs : List ClassDecl,
    NestedFirst ((flattenNested package outer cs).map (entry origin))
  | [] => by
    rw [flattenNested]
    exact nestedFirst_nil
  | c :: cs => by
    rw [flattenNested, List.map_append]
    exact (nestedFirst_flattenAs origin package _ c).append
      (nestedFirst_flattenNested origin package outer cs)

end

end ClassDecl

theorem SourceFile.nestedFirst_entries (files : List SourceFile) :
    IndexEntry.NestedFirst (files.flatMap entries) := by
  have hdeclaration : ∀ (origin : String) (d : Declaration),
      IndexEntry.NestedFirst (d.flatten.map (⟨·, origin⟩)) := by
    intro origin d
    cases d with
    | ofAlias a =>
      intro earlier c origin' later h
      cases earlier with
      | nil => cases h
      | cons e earlier => simp [Declaration.flatten] at h
    | ofClass c =>
      rw [Declaration.flatten, List.map_map]
      exact c.nestedFirst_flattenAs origin c.package c.name
  have hfile : ∀ f : SourceFile, IndexEntry.NestedFirst f.entries := by
    intro f
    rw [entries, List.map_flatMap]
    induction f.declarations with
    | nil => exact IndexEntry.nestedFirst_nil
    | cons d ds ih => exact (hdeclaration f.path d).append ih
  induction files with
  | nil => exact IndexEntry.nestedFirst_nil
  | cons f files ih => exact (hfile f).append ih

/-! ### Repeated names -/

/-- The first name in a list of names and files that has occurred before, with the file of its
first place and the file of the place that repeats it: no name is repeated up to there. -/
def FirstRepeated (places : List (String × String)) (name first again : String) : Prop :=
  ∃ before later, places = before ++ (name, again) :: later ∧
    (before.map Prod.fst).Nodup ∧ (name, first) ∈ before

namespace FirstRepeated

variable {places : List (String × String)} {name first again name' first' again' : String}

theorem append (h : FirstRepeated places name first again) (rest : List (String × String)) :
    FirstRepeated (places ++ rest) name first again := by
  obtain ⟨before, later, rfl, hnodup, hfirst⟩ := h
  exact ⟨before, later ++ rest, List.append_assoc _ _ _, hnodup, hfirst⟩

/-- A list without repeated names does not go on with a name that it has. -/
theorem notMem_of_nodup {before between : List (String × String)}
    (hnodup : ((before ++ (name, again) :: between).map Prod.fst).Nodup) (file : String) :
    (name, file) ∉ before := by
  intro hmem
  rw [List.map_append, List.nodup_append] at hnodup
  exact hnodup.2.2 name (List.mem_map_of_mem hmem) name List.mem_cons_self rfl

theorem not_nodup (h : FirstRepeated places name first again) :
    ¬ (places.map Prod.fst).Nodup := by
  obtain ⟨before, later, rfl, -, hfirst⟩ := h
  exact fun hnodup => notMem_of_nodup hnodup first hfirst

/-- A list has one of them at most. -/
theorem unique (h : FirstRepeated places name first again)
    (h' : FirstRepeated places name' first' again') :
    name = name' ∧ first = first' ∧ again = again' := by
  obtain ⟨before, later, rfl, hnodup, hfirst⟩ := h
  obtain ⟨before', later', heq, hnodup', hfirst'⟩ := h'
  rcases List.append_eq_append_iff.1 heq with ⟨between, rfl, hafter⟩ | ⟨between, rfl, hafter⟩
  · rcases List.cons_eq_append_iff.1 hafter with ⟨rfl, hafter⟩ | ⟨rest, rfl, -⟩
    · cases hafter
      rw [List.append_nil] at hfirst'
      exact ⟨rfl, congrArg Prod.snd (List.inj_on_of_nodup_map hnodup hfirst hfirst' rfl), rfl⟩
    · exact absurd hfirst (notMem_of_nodup hnodup' first)
  · rcases List.cons_eq_append_iff.1 hafter with ⟨rfl, hafter⟩ | ⟨rest, rfl, -⟩
    · cases hafter
      rw [List.append_nil] at hfirst
      exact ⟨rfl, congrArg Prod.snd (List.inj_on_of_nodup_map hnodup' hfirst hfirst' rfl), rfl⟩
    · exact absurd hfirst' (notMem_of_nodup hnodup first')

end FirstRepeated

/-- The name of an entry and the file that it came from. -/
def IndexEntry.place (e : IndexEntry) : String × String :=
  (e.name, e.origin)

/-- The name of a place and the file that it is in. -/
def Occurrence.place (o : Occurrence) : String × String :=
  (o.name, o.origin)

theorem Occurrence.EnteredAs.place_eq {o : Occurrence} {e : IndexEntry} (h : o.EnteredAs e) :
    o.place = e.place := by
  cases h with
  | ofAlias a origin => rfl
  | ofClass c package name origin nested listed => rfl

theorem SourceFile.places_occurrences (files : List SourceFile) :
    (files.flatMap occurrences).map Occurrence.place =
      (files.flatMap entries).map IndexEntry.place := by
  have hplaces := (forall₂_occurrences files).imp fun o e h => h.place_eq
  rw [← List.forall₂_eq_eq_eq, List.forall₂_map_left_iff, List.forall₂_map_right_iff]
  exact hplaces

theorem SourceFile.names_occurrences (files : List SourceFile) :
    (files.flatMap occurrences).map Occurrence.name =
      (files.flatMap entries).map IndexEntry.name := by
  have hplaces := congrArg (List.map Prod.fst) (places_occurrences files)
  rw [List.map_map, List.map_map] at hplaces
  exact hplaces

/-! ### Refusals -/

namespace DeclarationIndex

/-- A refused list repeats a name of the index or of its own. -/
theorem firstRepeated_of_insertAll {origin : String} {p : Problem} (ds : List Declaration) :
    ∀ {idx idx' : DeclarationIndex}, idx.names.Nodup →
      insertAll origin idx ds = (idx', .error p) →
      ∃ name first again, p = .duplicateDeclaration name first again ∧
        FirstRepeated ((idx.extended (ds.map (⟨·, origin⟩))).entries.map IndexEntry.place)
          name first again := by
  induction ds with
  | nil =>
    intro idx idx' _ h
    cases h
  | cons d ds ih =>
    intro idx idx' hidx h
    rw [insertAll] at h
    cases hinsert : idx.insert origin d with
    | error q =>
      rw [hinsert] at h
      cases h
      unfold insert at hinsert
      cases hfound : idx.entry? d.qualifiedName with
      | none =>
        rw [hfound] at hinsert
        cases hinsert
      | some earlier =>
        rw [hfound] at hinsert
        cases hinsert
        have hname : earlier.name = d.qualifiedName := by simpa using List.find?_some hfound
        have hmem : earlier.place ∈ idx.entries.map IndexEntry.place :=
          List.mem_map_of_mem (List.mem_of_find?_eq_some hfound)
        refine ⟨_, _, _, rfl, idx.entries.map IndexEntry.place,
          (ds.map (⟨·, origin⟩)).map IndexEntry.place, ?_, ?_, ?_⟩
        · rw [extended, List.map_append]
          rfl
        · rw [List.map_map]
          exact hidx
        · rw [← hname]
          exact hmem
    | ok idx₁ =>
      rw [hinsert] at h
      obtain ⟨hnew, rfl⟩ := insert_eq_ok_iff.1 hinsert
      have hnodup : (idx.extended [⟨d, origin⟩]).names.Nodup :=
        nodup_extended_singleton.2 ⟨hidx, hnew⟩
      have hrest := ih hnodup h
      rw [extended_extended] at hrest
      exact hrest

theorem firstRepeated_of_addFiles {p : Problem} (files : List SourceFile) :
    ∀ {idx : DeclarationIndex}, idx.names.Nodup → idx.addFiles files = .error p →
      ∃ name first again, p = .duplicateDeclaration name first again ∧
        FirstRepeated ((idx.extended (files.flatMap SourceFile.entries)).entries.map
          IndexEntry.place) name first again := by
  induction files with
  | nil =>
    intro idx _ h
    cases h
  | cons file files ih =>
    intro idx hidx h
    rw [addFiles] at h
    rw [List.flatMap_cons, ← extended_extended]
    rcases hfile : idx.addFile file with ⟨idx₁, q | _⟩
    · rw [hfile] at h
      cases h
      obtain ⟨name, first, again, rfl, hrepeated⟩ := firstRepeated_of_insertAll _ hidx hfile
      refine ⟨name, first, again, rfl, ?_⟩
      rw [extended, List.map_append]
      exact hrepeated.append _
    · rw [hfile] at h
      obtain ⟨hnodup, rfl⟩ := (insertAll_eq_ok_iff _ hidx).1 hfile
      exact ih hnodup h

/-- No index is built for the first name that is repeated, and for no other reason. -/
theorem build_eq_error_iff {files : List SourceFile} {p : Problem} :
    build files = .error p ↔ ∃ name first again,
      FirstRepeated ((files.flatMap SourceFile.entries).map IndexEntry.place) name first again ∧
        p = .duplicateDeclaration name first again := by
  have hrefused : ∀ {q : Problem}, build files = .error q → ∃ name first again,
      q = .duplicateDeclaration name first again ∧ FirstRepeated
        ((files.flatMap SourceFile.entries).map IndexEntry.place) name first again :=
    firstRepeated_of_addFiles files List.nodup_nil
  constructor
  · intro h
    obtain ⟨name, first, again, hp, hrepeated⟩ := hrefused h
    exact ⟨name, first, again, hrepeated, hp⟩
  · rintro ⟨name, first, again, hrepeated, rfl⟩
    cases h : build files with
    | ok idx =>
      have hnodup := (build_eq_ok_iff.1 h).1
      have hnot := hrepeated.not_nodup
      rw [List.map_map] at hnot
      exact absurd hnodup hnot
    | error q =>
      -- there is a problem, and only one name can be in it
      obtain ⟨name', first', again', rfl, hrepeated'⟩ := hrefused h
      obtain ⟨rfl, rfl, rfl⟩ := hrepeated.unique hrepeated'
      rfl

/-- **How an index is built.**  An index is built of files if and only if the names in full of
all that is declared in them, at any depth, are different.  It then has one entry for each place
in their order, found by its name, and everything that a class lists as nested has an entry of
its own before that of the class, from the same file, which is what is listed but for what is
nested in it.  Otherwise the problem names the first name that has occurred before, with the file
of its first place and of the one that repeats it. -/
theorem build_spec (files : List SourceFile) :
    ((∃ idx, build files = .ok idx) ↔
      ((files.flatMap SourceFile.occurrences).map Occurrence.name).Nodup) ∧
    (∀ idx, build files = .ok idx →
      List.Forall₂ Occurrence.EnteredAs (files.flatMap SourceFile.occurrences) idx.entries ∧
      (∀ name d, idx.get? name = some d ↔ d ∈ idx.declarations ∧ d.qualifiedName = name) ∧
      ∀ earlier c origin later, idx.entries = earlier ++ ⟨.ofClass c, origin⟩ :: later →
        ∀ n ∈ c.nested, ∃ n', ⟨.ofClass n', origin⟩ ∈ earlier ∧
          idx.get? n.qualifiedName = some (.ofClass n') ∧ n = n'.shallow) ∧
    ∀ p, build files = .error p ↔ ∃ name first again,
      FirstRepeated ((files.flatMap SourceFile.occurrences).map Occurrence.place)
        name first again ∧ p = .duplicateDeclaration name first again := by
  refine ⟨?_, ?_, fun p => ?_⟩
  · rw [SourceFile.names_occurrences]
    constructor
    · rintro ⟨idx, h⟩
      exact (build_eq_ok_iff.1 h).1
    · intro hnodup
      exact ⟨_, build_eq_ok_iff.2 ⟨hnodup, rfl⟩⟩
  · intro idx h
    have hget : ∀ name d, idx.get? name = some d ↔ d ∈ idx.declarations ∧ d.qualifiedName = name :=
      fun name d => get?_eq_some_iff_mem (nodup_names_of_build h)
    obtain ⟨-, rfl⟩ := build_eq_ok_iff.1 h
    refine ⟨SourceFile.forall₂_occurrences files, hget, ?_⟩
    intro earlier c origin later hsplit n hn
    obtain ⟨n', hmem, heq⟩ :=
      SourceFile.nestedFirst_entries files earlier c origin later hsplit n hn
    refine ⟨n', hmem, (hget _ _).2 ⟨?_, ?_⟩, heq⟩
    · rw [declarations, hsplit]
      exact List.mem_map_of_mem (List.mem_append_left _ hmem)
    · rw [heq]
      rfl
  · rw [SourceFile.places_occurrences]
    exact build_eq_error_iff

end DeclarationIndex

/-! ### A box in a box

The class `Lid` states a package of its own and is nested two levels deep.  A class of another
file has the dotted name that `Inner` goes by. -/

namespace Sample

def lid : ClassDecl :=
  { declared "Lid" [] [] none with package := "elsewhere" }

def inner : ClassDecl :=
  { declared "Inner" [] [] none with nested := [lid] }

def outer : ClassDecl :=
  { declared "Outer" [] [] none with nested := [inner] }

def boxAlias : AliasDecl :=
  ⟨"t", "Box", [], .named "t.Outer", [], none⟩

def boxes : List SourceFile :=
  [⟨"boxes.json", [.ofClass outer]⟩, ⟨"names.json", [.ofAlias boxAlias]⟩]

/-- What is entered for the classes of the first file, the innermost one first. -/
def enteredBoxes : ClassDecl × ClassDecl × ClassDecl :=
  let lid' := lid.renamed "t" "Outer.Inner.Lid"
  let inner' := { inner.renamed "t" "Outer.Inner" with nested := [lid'] }
  (lid', inner', { outer with nested := [inner'.shallow] })

def boxIndex : DeclarationIndex :=
  ⟨[⟨.ofClass enteredBoxes.1, "boxes.json"⟩, ⟨.ofClass enteredBoxes.2.1, "boxes.json"⟩,
    ⟨.ofClass enteredBoxes.2.2, "boxes.json"⟩, ⟨.ofAlias boxAlias, "names.json"⟩]⟩

def clashing : List SourceFile :=
  boxes ++ [⟨"more.json", [.ofClass (declared "Outer.Inner" [] [] none)]⟩]

end Sample

theorem DeclarationIndex.build_spec_boxes :
    build Sample.boxes = .ok Sample.boxIndex ∧
    List.Forall₂ Occurrence.EnteredAs (Sample.boxes.flatMap SourceFile.occurrences)
      Sample.boxIndex.entries ∧
    (∃ n', Sample.boxIndex.get? "t.Outer.Inner" = some (.ofClass n') ∧
      Sample.enteredBoxes.2.1.shallow = n'.shallow) ∧
    build Sample.clashing =
      .error (.duplicateDeclaration "t.Outer.Inner" "boxes.json" "more.json") := by
  have hbuild : build Sample.boxes = .ok Sample.boxIndex :=
    build_eq_ok_iff.2 ⟨by decide +kernel, rfl⟩
  obtain ⟨hentered, -, hnested⟩ := (build_spec Sample.boxes).2.1 _ hbuild
  obtain ⟨n', -, hget, hlisted⟩ := hnested [_, _] _ _ _ rfl _ List.mem_cons_self
  have hrepeated : FirstRepeated
      ((Sample.clashing.flatMap SourceFile.occurrences).map Occurrence.place)
      "t.Outer.Inner" "boxes.json" "more.json" :=
    ⟨[_, _, _, _], [], rfl, by decide +kernel, by decide +kernel⟩
  exact ⟨hbuild, hentered, ⟨n', hget, hlisted⟩,
    ((build_spec Sample.clashing).2.2 _).2 ⟨_, _, _, hrepeated, rfl⟩⟩

end ModelForge
