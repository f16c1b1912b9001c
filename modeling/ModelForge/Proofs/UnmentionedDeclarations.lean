/-
Declarations that are not mentioned do not interfere.

More may be declared beside what a class is made of: other files of a project, or the library
that comes with every run.  As long as nothing in an index mentions them, further declarations
do not change what its classes come to:

* `DeclarationIndex.Loaded` — the indexes that come about by entering files, which name
  nothing twice (`DeclarationIndex.Loaded.nodup`);
* `DeclarationIndex.Extends` — one index has the declarations of another and further ones that
  the other does not mention;
* `DeclarationIndex.Extends.agrees` — so the two agree on all names that the smaller one
  mentions, and what these stand for mentions no others;
* `DeclarationIndex.Extends.outcome` — hence a target of the smaller index is a target of the
  larger one, with the same model and the same files, or the same problem.
-/
import ModelForge.Proofs.LoadOrder

namespace ModelForge

namespace DeclarationIndex

/-! ### Indexes that are loaded -/

/-- The index has been made by entering files, some of which may have been refused in part. -/
inductive Loaded : DeclarationIndex → Prop
  | empty : Loaded empty
  | addFile {idx : DeclarationIndex} (file : SourceFile) (h : Loaded idx) :
      Loaded (idx.addFile file).1

theorem nodup_names_insertAll {origin : String} (ds : List Declaration) :
    ∀ {idx : DeclarationIndex}, idx.names.Nodup → (insertAll origin idx ds).1.names.Nodup := by
  induction ds with
  | nil => exact fun h => h
  | cons d ds ih =>
    intro idx hidx
    rw [insertAll]
    cases h : idx.insert origin d with
    | error p => exact hidx
    | ok idx' =>
      obtain ⟨hnew, rfl⟩ := insert_eq_ok_iff.1 h
      exact ih (nodup_extended_singleton.2 ⟨hidx, hnew⟩)

theorem Loaded.nodup {idx : DeclarationIndex} (h : idx.Loaded) : idx.names.Nodup := by
  induction h with
  | empty => exact List.nodup_nil
  | addFile file _ ih => exact nodup_names_insertAll _ ih

theorem Loaded.addFiles {files : List SourceFile} :
    ∀ {idx idx' : DeclarationIndex}, idx.Loaded → idx.addFiles files = .ok idx' → idx'.Loaded := by
  induction files with
  | nil =>
    rintro idx idx' hidx ⟨⟩
    exact hidx
  | cons file files ih =>
    intro idx idx' hidx h
    have hfile := hidx.addFile file
    rw [DeclarationIndex.addFiles] at h
    rcases hadd : idx.addFile file with ⟨idx₁, p | _⟩
    · rw [hadd] at h
      cases h
    · rw [hadd] at h hfile
      exact ih hfile h

/-! ### Extensions -/

/-- The larger index declares all that the smaller one declares, and further names only such
as the smaller one does not mention. -/
structure Extends (large small : DeclarationIndex) : Prop where
  declared : small.declarations ⊆ large.declarations
  apart : ∀ name ∈ large.names, name ∉ small.names → name ∉ small.mentions

variable {large small : DeclarationIndex}

theorem get?_eq_none_iff {idx : DeclarationIndex} {name : String} :
    idx.get? name = none ↔ name ∉ idx.names := by
  rw [get?, Option.map_eq_none_iff, entry?_eq_none_iff]

/-- What a target mentions is mentioned in its index. -/
theorem mentions_target {m : Markers} {t : Target} (ht : t ∈ Context.targets ⟨small, m⟩) :
    ∀ n ∈ t.decl.mentions, n ∈ small.mentions := by
  obtain ⟨c, hc, hmark⟩ := List.mem_filterMap.1 ht
  obtain ⟨mark, -, rfl⟩ := Option.map_eq_some_iff.1 hmark
  obtain ⟨d, hd, hclass⟩ := List.mem_filterMap.1 hc
  cases d with
  | ofClass c' =>
    cases hclass
    exact fun n hn => List.mem_flatMap.2 ⟨_, hd, hn⟩
  | ofAlias a => cases hclass

namespace Extends

/-- A name that the smaller index mentions stands for the same in both: for what is declared
in the smaller one, or for nothing. -/
theorem get?_eq (h : large.Extends small) (hlarge : large.names.Nodup) {name : String}
    (hname : name ∈ small.mentions) : large.get? name = small.get? name := by
  cases hsmall : small.get? name with
  | some d =>
    obtain ⟨e, he, rfl⟩ := Option.map_eq_some_iff.1 hsmall
    have hmem : e.declaration ∈ small.declarations :=
      List.mem_map_of_mem (List.mem_of_find?_eq_some he)
    have hnamed : e.name = name := by simpa using List.find?_some he
    exact (get?_eq_some_iff_mem hlarge).2 ⟨h.declared hmem, hnamed⟩
  | none =>
    -- a further name would have to be mentioned, and none is
    refine get?_eq_none_iff.2 fun hmem => ?_
    exact h.apart name hmem (get?_eq_none_iff.1 hsmall) hname

/-- The two indexes agree on what the smaller one mentions. -/
theorem agrees (h : large.Extends small) (hlarge : large.names.Nodup) (m : Markers) :
    Context.Agrees (· ∈ small.mentions) ⟨small, m⟩ ⟨large, m⟩ where
  markers := rfl
  get? := h.get?_eq hlarge
  closed := fun _ hd => mentions_get? hd

theorem classes_subset (h : large.Extends small) : small.classes ⊆ large.classes :=
  List.filterMap_subset _ h.declared

theorem targets_subset (h : large.Extends small) (m : Markers) :
    Context.targets ⟨small, m⟩ ⊆ Context.targets ⟨large, m⟩ :=
  List.filterMap_subset _ h.classes_subset

/-- **Unmentioned declarations do not interfere.**  If an index is extended by declarations
that nothing in it mentions, its targets are targets of the larger index, and each of them is
analyzed to the same model there, or given up for the same problem, and has the same files. -/
theorem outcome {m : Markers} {t : Target} (hlarge : large.Loaded) (h : large.Extends small)
    (ht : t ∈ Context.targets ⟨small, m⟩) :
    t ∈ Context.targets ⟨large, m⟩ ∧
      Context.modelAlone ⟨large, m⟩ t = Context.modelAlone ⟨small, m⟩ t ∧
      Context.alone ⟨large, m⟩ t = Context.alone ⟨small, m⟩ t := by
  have hagrees := h.agrees hlarge.nodup m
  have hmentions := mentions_target ht
  exact ⟨h.targets_subset m ht, hagrees.modelAlone_eq hmentions, hagrees.alone_eq hmentions⟩

end Extends

end DeclarationIndex

/-! ### A project with a second file

The second file is entered before the first.  It has a target of its own, an alias of a class
of the first file, and a class that shares its simple name with one that is mentioned there. -/

namespace Sample

def project : SourceFile :=
  ⟨"library.json", [top, middle, bottom, deep, bare, beforeBroken.decl, broken.decl].map .ofClass⟩

def neighbours : SourceFile :=
  ⟨"neighbours.json",
    [.ofAlias ⟨"u", "Shallow", [], .named "t.Deep", [], none⟩,
      .ofClass { bare with package := "u", name := "Deep" }, .ofClass afterBroken.decl]⟩

def smallIndex : DeclarationIndex := ⟨project.entries⟩

def largeIndex : DeclarationIndex := ⟨neighbours.entries ++ project.entries⟩

theorem loaded_largeIndex : largeIndex.Loaded := by
  have hbuild : DeclarationIndex.build [neighbours, project] = .ok largeIndex :=
    DeclarationIndex.build_eq_ok_iff.2 ⟨by decide +kernel, rfl⟩
  exact DeclarationIndex.Loaded.empty.addFiles hbuild

theorem extends_smallIndex : largeIndex.Extends smallIndex where
  declared := by
    have happend : largeIndex.declarations =
        neighbours.entries.map IndexEntry.declaration ++ smallIndex.declarations :=
      List.map_append
    rw [happend]
    exact List.subset_append_right _ _
  apart := by decide +kernel

end Sample

theorem DeclarationIndex.Extends.outcome_neighbours :
    Sample.largeIndex.Loaded ∧ Sample.largeIndex.Extends Sample.smallIndex ∧
    Context.alone ⟨Sample.largeIndex, {}⟩ Sample.broken =
      .error (.unresolvedFailure "t.Bare" .noCompanion) ∧
    Context.alone ⟨Sample.largeIndex, {}⟩ Sample.beforeBroken =
      Context.alone ⟨Sample.smallIndex, {}⟩ Sample.beforeBroken ∧
    (Context.alone ⟨Sample.smallIndex, {}⟩ Sample.beforeBroken).isOk = true := by
  have htargets : Context.targets ⟨Sample.smallIndex, {}⟩ = [Sample.beforeBroken, Sample.broken] :=
    rfl
  have hfirst : Sample.beforeBroken ∈ Context.targets ⟨Sample.smallIndex, {}⟩ := by
    rw [htargets]
    exact List.mem_cons_self
  have hsecond : Sample.broken ∈ Context.targets ⟨Sample.smallIndex, {}⟩ := by
    rw [htargets]
    exact List.mem_cons_of_mem _ List.mem_cons_self
  have hbroken : Context.alone ⟨Sample.smallIndex, {}⟩ Sample.broken =
      .error (.unresolvedFailure "t.Bare" .noCompanion) := by decide +kernel
  have hok : (Context.alone ⟨Sample.smallIndex, {}⟩ Sample.beforeBroken).isOk = true := by
    decide +kernel
  obtain ⟨-, -, hsame⟩ := outcome Sample.loaded_largeIndex Sample.extends_smallIndex hsecond
  obtain ⟨-, -, hsame'⟩ := outcome Sample.loaded_largeIndex Sample.extends_smallIndex hfirst
  exact ⟨Sample.loaded_largeIndex, Sample.extends_smallIndex, hsame.trans hbroken, hsame', hok⟩

end ModelForge
