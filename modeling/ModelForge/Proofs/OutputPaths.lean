/-
The paths of generated files.

The files of a model are named by its base name and an ending, and lie in the directory of its
package.  Nobody asks whether another declaration has such a file already, so two declarations
may write to one path.  Here it is said exactly when they do:

* `Path.key` — what paths are compared by: their components, and how they start;
* `Path.key_append_inj` — the files that two paths name with endings are the same if the paths
  lead to one folder, and their last parts with the endings are equal;
* `Model.stem` — the path of the base name, to which the endings are added (`Model.paths_eq`);
* `Model.eq_or_eq_empty_of_append_eq` — no ending is the end of another one but the empty one;
* `Model.Overlaps` — the two stems lead to one folder, and the last parts are equal, or one of
  the models is a template and its last part is the other's with one of its endings.

The statement about runs is `Context.nodup_paths_iff`; that declarations do overlap is
`Sample.overlapping_paths`.
-/
import Mathlib.Data.List.Nodup
import ModelForge.Proofs.AnalyzedModels

namespace ModelForge

/-! ### Joining -/

namespace Path

/-- The empty path is no directory. -/
@[simp] theorem join_empty (path : String) : join "" path = path := by
  unfold join
  split
  · rfl
  · rfl

theorem isAbsolute_append {path rest : String} (h : isAbsolute rest = false) :
    isAbsolute (path ++ rest) = isAbsolute path := by
  unfold isAbsolute at *
  rw [String.toList_append]
  cases path.toList with
  | nil => exact h
  | cons c cs => rfl

/-- What does not start with a slash may be appended before or after joining. -/
theorem join_append {base path rest : String} (h : isAbsolute rest = false) :
    join base (path ++ rest) = join base path ++ rest := by
  unfold join
  rw [isAbsolute_append h]
  split
  · rfl
  · split
    · rfl
    · split
      · rw [String.append_assoc]
      · rw [String.append_assoc, String.append_assoc, String.append_assoc]

/-! ### Comparing -/

/-- A path as paths are compared: whether it starts at the root, whether it starts with a dot, and
its components.  More than one slash, and a dot between slashes, make no difference. -/
structure Key where
  absolute : Bool
  leadingDot : Bool
  names : List String
deriving DecidableEq

/-- What a path is compared by. -/
def key (path : String) : Key :=
  ⟨isAbsolute path, (parts path).head? == some ".", components path⟩

/-- The last of the parts of a path. -/
def lastPart (path : String) : String :=
  (parts path).getLastD ""

/-- What the path to the last part is compared by. -/
def folder (path : String) : Key :=
  let front := (parts path).dropLast
  ⟨isAbsolute path, front.head? == some ".", front.filter fun part => part ≠ "" ∧ part ≠ "."⟩

/-- What has no slash goes into the last part. -/
theorem slashParts_append_of_not_mem {ds : List Char} (hds : '/' ∉ ds) (cs : List Char) :
    ∃ front name, slashParts cs = front ++ [name] ∧
      slashParts (cs ++ ds) = front ++ [name ++ ds] := by
  induction cs with
  | nil =>
    refine ⟨[], [], rfl, ?_⟩
    show slashParts ds = [ds]
    induction ds with
    | nil => rfl
    | cons d ds ih =>
      obtain ⟨hd, hds⟩ := List.ne_and_not_mem_of_not_mem_cons hds
      rw [slashParts, if_neg hd.symm, ih hds]
  | cons c cs ih =>
    obtain ⟨front, name, hcs, hall⟩ := ih
    rw [List.cons_append, slashParts, slashParts, hcs, hall]
    split
    · exact ⟨[] :: front, name, rfl, rfl⟩
    · cases front with
      | nil => exact ⟨[], c :: name, rfl, rfl⟩
      | cons part front => exact ⟨(c :: part) :: front, name, rfl, rfl⟩

variable {path path' ending ending' : String}

theorem parts_append (path : String) (h : '/' ∉ ending.toList) :
    parts (path ++ ending) = (parts path).dropLast ++ [lastPart path ++ ending] := by
  obtain ⟨front, name, hpath, hall⟩ := slashParts_append_of_not_mem h path.toList
  rw [lastPart, parts, parts, String.toList_append, hpath, hall, List.map_append,
    List.map_append, List.map_singleton, List.map_singleton, List.dropLast_concat,
    List.getLastD_concat, String.ofList_append, String.ofList_toList]

/-- What follows the name of a file is not all of the name. -/
def IsEnding (ending : String) : Prop :=
  '/' ∉ ending.toList ∧ 1 < ending.length

instance : DecidablePred IsEnding := fun ending =>
  inferInstanceAs (Decidable ('/' ∉ ending.toList ∧ _))

theorem IsEnding.not_isAbsolute (h : IsEnding ending) : isAbsolute ending = false := by
  rw [isAbsolute, beq_eq_false_iff_ne]
  exact fun hslash => h.1 (List.mem_of_head? hslash)

theorem IsEnding.append_ne (h : IsEnding ending) (name short : String)
    (hshort : short.length ≤ 1) : name ++ ending ≠ short := by
  rintro rfl
  rw [String.length_append] at hshort
  exact absurd h.2 (Nat.not_lt_of_le (Nat.le_of_add_left_le hshort))

/-- The name of a file is a component of its own. -/
theorem key_append (path : String) (h : IsEnding ending) :
    key (path ++ ending) =
      { folder path with names := (folder path).names ++ [lastPart path ++ ending] } := by
  have hempty := h.append_ne (lastPart path) "" (by decide)
  have hdot := h.append_ne (lastPart path) "." (by decide)
  rw [key, components, isAbsolute_append h.not_isAbsolute, parts_append path h.1]
  unfold folder
  rw [Key.mk.injEq]
  refine ⟨rfl, ?_, ?_⟩
  · cases (parts path).dropLast with
    | nil => simpa using hdot
    | cons part front => rfl
  · rw [List.filter_append, List.filter_cons_of_pos (by simp [hempty, hdot]), List.filter_nil]

/-- Files are the same if they lie in one folder and have one name. -/
theorem key_append_inj (h : IsEnding ending) (h' : IsEnding ending') :
    key (path ++ ending) = key (path' ++ ending') ↔
      folder path = folder path' ∧ lastPart path ++ ending = lastPart path' ++ ending' := by
  rw [key_append path h, key_append path' h']
  cases folder path
  cases folder path'
  simp [and_assoc]

example : key ("com//acme/./User" ++ ".kt") = key ("com/acme/User" ++ ".kt") := by
  decide

end Path

namespace Model

/-! ### Endings -/

/-- Every ending that the name of a generated file may have. -/
def allEndings : List String :=
  ["FieldFailure", "", "Params", "Builder", "CompanionOf", "CompanionOnly"]

variable {m m' : Model} {option : String}

theorem endings_subset : m.endings option ⊆ allEndings := by
  unfold endings
  intro ending hending
  split at hending
  · revert hending ending
    decide
  · split at hending
    · revert hending ending
      decide
    · revert hending ending
      decide

theorem nodup_endings : (m.endings option).Nodup := by
  unfold endings
  split
  · decide
  · split
    · decide
    · decide

theorem fieldFailure_mem_endings : "FieldFailure" ∈ m.endings option := by
  unfold endings
  split
  · exact List.mem_cons_self
  · exact List.mem_cons_self

theorem empty_mem_endings_iff : "" ∈ m.endings option ↔ m.target = .template := by
  unfold endings
  split
  · simp [*]
  · split
    · simp [*]
    · simp [*]

theorem isEnding_of_mem : ∀ ending ∈ allEndings, Path.IsEnding (ending ++ ".kt") := by
  decide

/-- Of two endings one is the end of the other only if they are equal or it is empty. -/
theorem eq_or_eq_empty_of_suffix :
    ∀ e ∈ allEndings, ∀ e' ∈ allEndings, e.toList <:+ e'.toList → e = e' ∨ e = "" := by
  decide

theorem eq_or_eq_empty_of_append_eq {s s' e e' : String} (he : e ∈ allEndings)
    (he' : e' ∈ allEndings) (h : s ++ e = s' ++ e') : e = e' ∨ e = "" ∨ e' = "" := by
  have hlists : s.toList ++ e.toList = s'.toList ++ e'.toList := by
    rw [← String.toList_append, ← String.toList_append, h]
  have hsuffix : e.toList <:+ e'.toList ∨ e'.toList <:+ e.toList :=
    List.suffix_or_suffix_of_suffix ⟨s.toList, hlists⟩ ⟨s'.toList, rfl⟩
  rcases hsuffix with hsuffix | hsuffix
  · rcases eq_or_eq_empty_of_suffix e he e' he' hsuffix with heq | hempty
    · exact .inl heq
    · exact .inr (.inl hempty)
  · rcases eq_or_eq_empty_of_suffix e' he' e he hsuffix with heq | hempty
    · exact .inl heq.symm
    · exact .inr (.inr hempty)

/-! ### Paths of models -/

/-- The directory of a package. -/
def directory (package : String) : String :=
  ((dotted package).filter (· ≠ "")).foldl Path.join ""

/-- The path of the base name in the directory of the package. -/
def stem (m : Model) : String :=
  Path.join (directory m.names.package) m.names.base

/-- The paths of the files of a model. -/
def paths (m : Model) (option : String) : List String :=
  (m.generatedFiles option).map GeneratedFile.path

variable {c c' : ClassDecl} {mark mark' : TargetMark}

theorem paths_eq (h : m.FitsMark c mark) :
    m.paths option = (m.endings option).map fun ending => m.stem ++ ending ++ ".kt" := by
  -- a path depends on the package and the name of the file alone
  have hpaths : m.paths option =
      ((m.generatedFiles option).map fun f => (f.package, f.name)).map
        fun f => Path.join (directory f.1) (f.2 ++ ".kt") := by
    rw [List.map_map]
    rfl
  rw [hpaths, (generate_of_fitsMark option h).2, List.map_map]
  refine List.map_congr_left fun ending hending => ?_
  show Path.join (directory m.names.package) (m.names.base ++ ending ++ ".kt") = _
  have hrelative := (isEnding_of_mem ending (endings_subset hending)).not_isAbsolute
  rw [String.append_assoc, Path.join_append hrelative, stem, String.append_assoc]

theorem mem_paths_iff (h : m.FitsMark c mark) {path : String} :
    path ∈ m.paths option ↔ ∃ ending ∈ m.endings option, path = m.stem ++ ending ++ ".kt" := by
  rw [paths_eq h, List.mem_map]
  exact exists_congr fun _ => and_congr_right fun _ => eq_comm

/-- The stem in an output directory, or the stem itself if the directory is the empty path. -/
def stemIn (m : Model) (out : String) : String :=
  Path.join out m.stem

/-- What the files of a model are compared by when they are written to an output directory. -/
def keys (m : Model) (option out : String) : List Path.Key :=
  (m.paths option).map fun path => Path.key (Path.join out path)

variable {out : String}

theorem keys_eq (h : m.FitsMark c mark) : m.keys option out =
    (m.endings option).map fun ending => Path.key (m.stemIn out ++ (ending ++ ".kt")) := by
  rw [keys, paths_eq h, List.map_map]
  refine List.map_congr_left fun ending hending => ?_
  have hrelative := (isEnding_of_mem ending (endings_subset hending)).not_isAbsolute
  show Path.key (Path.join out (m.stem ++ ending ++ ".kt")) = _
  rw [String.append_assoc, Path.join_append hrelative, stemIn]

theorem mem_keys_iff (h : m.FitsMark c mark) {key : Path.Key} : key ∈ m.keys option out ↔
    ∃ ending ∈ m.endings option, key = Path.key (m.stemIn out ++ (ending ++ ".kt")) := by
  rw [keys_eq h, List.mem_map]
  exact exists_congr fun _ => and_congr_right fun _ => eq_comm

/-- Two files are the same if their stems are in one folder, and the last parts of the stems are
the same with their endings. -/
theorem key_eq_key_iff {s s' e e' : String} (he : e ∈ allEndings) (he' : e' ∈ allEndings) :
    Path.key (s ++ (e ++ ".kt")) = Path.key (s' ++ (e' ++ ".kt")) ↔
      Path.folder s = Path.folder s' ∧ Path.lastPart s ++ e = Path.lastPart s' ++ e' := by
  rw [Path.key_append_inj (isEnding_of_mem e he) (isEnding_of_mem e' he'), ← String.append_assoc,
    ← String.append_assoc, String.append_left_inj]

theorem nodup_keys (h : m.FitsMark c mark) : (m.keys option out).Nodup := by
  rw [keys_eq h]
  refine nodup_endings.map_on fun e he e' he' heq => ?_
  have hnames := ((key_eq_key_iff (endings_subset he) (endings_subset he')).1 heq).2
  exact (String.append_right_inj _).1 hnames

/-- Two models overlap if their stems are in one folder, and either the last parts are equal or one
of the models is a template whose last part is the other one's with an ending. -/
def Overlaps (m m' : Model) (option out : String) : Prop :=
  Path.folder (m.stemIn out) = Path.folder (m'.stemIn out) ∧
    (Path.lastPart (m.stemIn out) = Path.lastPart (m'.stemIn out) ∨
      (m.target = .template ∧ ∃ ending ∈ m'.endings option,
        Path.lastPart (m.stemIn out) = Path.lastPart (m'.stemIn out) ++ ending) ∨
      (m'.target = .template ∧ ∃ ending ∈ m.endings option,
        Path.lastPart (m'.stemIn out) = Path.lastPart (m.stemIn out) ++ ending))

theorem exists_common_key_iff (h : m.FitsMark c mark) (h' : m'.FitsMark c' mark') :
    (∃ key, key ∈ m.keys option out ∧ key ∈ m'.keys option out) ↔ m.Overlaps m' option out := by
  constructor
  · rintro ⟨key, hkey, hkey'⟩
    obtain ⟨e, he, rfl⟩ := (mem_keys_iff h).1 hkey
    obtain ⟨e', he', heq⟩ := (mem_keys_iff h').1 hkey'
    obtain ⟨hfolder, heq⟩ := (key_eq_key_iff (endings_subset he) (endings_subset he')).1 heq
    refine ⟨hfolder, ?_⟩
    rcases eq_or_eq_empty_of_append_eq (endings_subset he) (endings_subset he') heq with
      rfl | rfl | rfl
    · exact .inl ((String.append_left_inj _).1 heq)
    · -- an empty ending belongs to a template
      rw [String.append_empty] at heq
      exact .inr (.inl ⟨empty_mem_endings_iff.1 he, e', he', heq⟩)
    · rw [String.append_empty] at heq
      exact .inr (.inr ⟨empty_mem_endings_iff.1 he', e, he, heq.symm⟩)
  · -- two endings with which the last parts are equal give one file
    have hcommon : ∀ e ∈ m.endings option, ∀ e' ∈ m'.endings option,
        Path.folder (m.stemIn out) = Path.folder (m'.stemIn out) →
        Path.lastPart (m.stemIn out) ++ e = Path.lastPart (m'.stemIn out) ++ e' →
        ∃ key, key ∈ m.keys option out ∧ key ∈ m'.keys option out :=
      fun e he e' he' hfolder hnames => ⟨_, (mem_keys_iff h).2 ⟨e, he, rfl⟩, (mem_keys_iff h').2
        ⟨e', he', (key_eq_key_iff (endings_subset he) (endings_subset he')).2 ⟨hfolder, hnames⟩⟩⟩
    rintro ⟨hfolder, heq | ⟨htemplate, e', he', heq⟩ | ⟨htemplate, e, he, heq⟩⟩
    · -- every model has a file for the union of its failures
      exact hcommon _ fieldFailure_mem_endings _ fieldFailure_mem_endings hfolder (by rw [heq])
    · exact hcommon _ (empty_mem_endings_iff.2 htemplate) e' he' hfolder
        (by rw [String.append_empty, heq])
    · exact hcommon e he _ (empty_mem_endings_iff.2 htemplate) hfolder
        (by rw [String.append_empty, heq])

end Model

/-! ### Paths of a run -/

namespace Context

/-- The files of a run are distinct wherever they are written to if and only if no two of the
models overlap there. -/
theorem nodup_keys_iff (ctx : Context) (out : String) :
    (ctx.generationReport.files.map fun f => Path.key (Path.join out f.path)).Nodup ↔
      ctx.analysisReport.models.Pairwise fun m m' => ¬ m.Overlaps m' ctx.markers.option out := by
  have hfits : ∀ m ∈ ctx.analysisReport.models, ∃ c mark, m.FitsMark c mark := fun m hm => by
    obtain ⟨t, -, halone⟩ := exists_modelAlone_of_mem hm
    exact ⟨_, _, (fitsMark_of_modelAlone halone).1⟩
  have hkeys : ctx.generationReport.files.map (fun f => Path.key (Path.join out f.path)) =
      ctx.analysisReport.models.flatMap (·.keys ctx.markers.option out) := by
    rw [files_eq_flatMap, List.map_flatMap]
    simp only [Model.keys, Model.paths, List.map_map]
    rfl
  have hnodup : ∀ m ∈ ctx.analysisReport.models, (m.keys ctx.markers.option out).Nodup := by
    intro m hm
    obtain ⟨_, _, ht⟩ := hfits m hm
    exact Model.nodup_keys ht
  rw [hkeys, List.nodup_flatMap, and_iff_right hnodup]
  refine List.Pairwise.iff_of_mem fun {m m'} hm hm' => ?_
  obtain ⟨_, _, ht⟩ := hfits m hm
  obtain ⟨_, _, ht'⟩ := hfits m' hm'
  rw [← Model.exists_common_key_iff ht ht']
  constructor
  · rintro hdisjoint ⟨key, hkey, hkey'⟩
    exact hdisjoint hkey hkey'
  · intro hnone key hkey hkey'
    exact hnone ⟨key, hkey, hkey'⟩

/-- **When files overwrite each other.**  Files are generated for every declaration that is
analyzed, whatever has been generated before.  Paths are compared by their components.  The files of
one declaration have paths of their own, wherever they are written to.  The paths of all files of a
run are distinct if and only if no two of the declarations overlap; and they stay distinct in an
output directory if and only if none overlap there. -/
theorem nodup_paths_iff (ctx : Context) :
    (∀ m ∈ ctx.analysisReport.models, (∃ t ∈ ctx.targets, m.FitsMark t.decl t.mark) ∧
      ∀ out, (m.keys ctx.markers.option out).Nodup) ∧
    ctx.generationReport.generated = ctx.analysisReport.models.map (·.declaration) ∧
    ctx.generationReport.files.map GeneratedFile.path =
      ctx.analysisReport.models.flatMap (·.paths ctx.markers.option) ∧
    ((ctx.generationReport.files.map fun f => Path.key f.path).Nodup ↔
      ctx.analysisReport.models.Pairwise fun m m' => ¬ m.Overlaps m' ctx.markers.option "") ∧
    ∀ out, (ctx.generationReport.files.map fun f => Path.key (Path.join out f.path)).Nodup ↔
      ctx.analysisReport.models.Pairwise fun m m' => ¬ m.Overlaps m' ctx.markers.option out := by
  refine ⟨fun m hm => ?_, generated_eq_map, ?_, ?_, ctx.nodup_keys_iff⟩
  · obtain ⟨t, ht, halone⟩ := exists_modelAlone_of_mem hm
    have hfits := (fitsMark_of_modelAlone halone).1
    exact ⟨⟨t, ht, hfits⟩, fun _ => Model.nodup_keys hfits⟩
  · rw [files_eq_flatMap, List.map_flatMap]
    rfl
  · rw [← ctx.nodup_keys_iff ""]
    simp only [Path.join_empty]

end Context

/-! ### Two templates of one name -/

namespace Sample

/-- An interface of the package `com.acme` that is marked as the template of a model. -/
def template (name base : String) : ClassDecl :=
  ⟨"com.acme", name, .interface, [], [],
    [.mk "modelsmith.annotation.ModelTemplate" [("name", .string base)]],
    [⟨"age", .named "kotlin.Int", [], none⟩], none, [], false, none⟩

/-- A file with two templates of the model `User`. -/
def twoUsers : SourceFile :=
  ⟨"model/user.json",
    [.ofClass (template "UserTemplate" "User"), .ofClass (template "Other" "User")]⟩

def twoUsersIndex : DeclarationIndex :=
  ⟨twoUsers.declarations.map fun d => ⟨d, "model/user.json"⟩⟩

def twoUsersReport : GenerationReport :=
  Context.generationReport ⟨twoUsersIndex, {}⟩

/-- Both templates of the model are accepted, and they write to the same four paths. -/
theorem overlapping_paths :
    DeclarationIndex.build [twoUsers] = .ok twoUsersIndex ∧
    twoUsersReport.generated = ["com.acme.UserTemplate", "com.acme.Other"] ∧
    twoUsersReport.files.map GeneratedFile.path =
      ["com/acme/UserFieldFailure.kt", "com/acme/User.kt", "com/acme/UserParams.kt",
        "com/acme/UserBuilder.kt", "com/acme/UserFieldFailure.kt", "com/acme/User.kt",
        "com/acme/UserParams.kt", "com/acme/UserBuilder.kt"] ∧
    ¬ (twoUsersReport.files.map fun f => Path.key f.path).Nodup := by
  have hpaths : twoUsersReport.files.map GeneratedFile.path =
      ["com/acme/UserFieldFailure.kt", "com/acme/User.kt", "com/acme/UserParams.kt",
        "com/acme/UserBuilder.kt", "com/acme/UserFieldFailure.kt", "com/acme/User.kt",
        "com/acme/UserParams.kt", "com/acme/UserBuilder.kt"] := by
    decide +kernel
  refine ⟨rfl, by decide +kernel, hpaths, fun hkeys => ?_⟩
  have hnodup : (twoUsersReport.files.map GeneratedFile.path).Nodup :=
    List.Nodup.of_map Path.key (by rwa [List.map_map])
  rw [hpaths] at hnodup
  revert hnodup
  decide

end Sample

end ModelForge
