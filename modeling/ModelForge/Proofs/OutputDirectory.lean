/-
Where files are written.

The path of a generated file is joined from the segments of a package and the name of the file.
No segment and no name has more than one dot, so that nothing leads upwards; but a segment that
starts with a slash is a path from the root, and it replaces what it is joined to.

* `Path.components_join`, `Path.isAbsolute_join` — what a joined path consists of;
* `Path.IsBelow` — a directory's path followed by names;
* `Target.Leaves` — the targets whose package or name has such a segment;
* `Context.path_of_mem_filesAlone` — the paths of all other targets are relative;
* `Config.generateInto_of_generate` — a run writes its files in order until one is refused.

What a run leaves as it was is said by `Config.generateInto_frame`; that there are targets that
leave the output directory, by `Sample.outside_paths`.
-/
import ModelForge.Proofs.DottedNames
import ModelForge.Proofs.OutputPaths
import ModelForge.Proofs.TreeWriting

namespace ModelForge

/-! ### Parts of paths -/

namespace Path

theorem slashParts_append (cs ds : List Char) :
    slashParts (cs ++ '/' :: ds) = slashParts cs ++ slashParts ds := by
  induction cs with
  | nil => rfl
  | cons c cs ih =>
    obtain ⟨w, ws, hws⟩ := exists_slashParts_eq_cons cs
    rw [List.cons_append, slashParts, slashParts, ih, hws]
    split
    · rfl
    · rfl

theorem sublist_of_mem_slashParts {part cs : List Char} (h : part ∈ slashParts cs) :
    part.Sublist cs := by
  induction cs generalizing part with
  | nil =>
    rw [slashParts, List.mem_singleton] at h
    rw [h]
  | cons c cs ih =>
    obtain ⟨w, ws, hws⟩ := exists_slashParts_eq_cons cs
    rw [slashParts, hws] at h
    rw [hws] at ih
    split at h
    · rcases List.mem_cons.1 h with rfl | hpart
      · exact List.nil_sublist _
      · exact (ih hpart).cons c
    · rcases List.mem_cons.1 h with rfl | hpart
      · exact (ih List.mem_cons_self).cons_cons c
      · exact (ih (List.mem_cons_of_mem w hpart)).cons c

/-- The last part of a path with an ending has this ending. -/
theorem getLast?_parts_append (path : String) {ending : String} (h : '/' ∉ ending.toList) :
    ∃ name, (parts (path ++ ending)).getLast? = some (name ++ ending) :=
  ⟨lastPart path, by rw [parts_append path h, List.getLast?_concat]⟩

/-! ### Components -/

theorem components_of_toList {path : String} (front rest : String)
    (h : path.toList = front.toList ++ '/' :: rest.toList) :
    components path = components front ++ components rest := by
  unfold components parts
  rw [h, slashParts_append, List.map_append, List.filter_append]

theorem components_join {base path : String} (h : isAbsolute path = false) :
    components (join base path) = components base ++ components path := by
  have hnone : components "" = [] := by decide
  rw [join, if_neg (by simp [h])]
  split
  · rename_i hbase
    rw [hbase, hnone, List.nil_append]
  · split
    · rename_i hslash
      -- the slash between the two is the last character of `base`
      obtain ⟨front, hfront⟩ : ∃ front, base.toList = front ++ ['/'] :=
        List.getLast?_eq_some_iff.1 (by simpa using hslash)
      have hbase : components base = components (String.ofList front) := by
        rw [components_of_toList (String.ofList front) "" (by simp [hfront]), hnone,
          List.append_nil]
      rw [hbase]
      exact components_of_toList _ _ (by simp [hfront])
    · exact components_of_toList _ _ (by simp)

theorem join_of_isAbsolute {path : String} (h : isAbsolute path = true) (base : String) :
    join base path = path := by
  rw [join, if_pos h]

theorem isAbsolute_join (base path : String) :
    isAbsolute (join base path) = (isAbsolute path || isAbsolute base) := by
  have happend : ∀ {rest}, base ≠ "" → isAbsolute (base ++ rest) = isAbsolute base := by
    intro rest hbase
    unfold isAbsolute
    rw [String.toList_append, List.head?_append_of_ne_nil _ (by simpa using hbase)]
  cases h : isAbsolute path with
  | true => rw [join_of_isAbsolute h, h, Bool.true_or]
  | false =>
    rw [join, if_neg (by simp [h]), Bool.false_or]
    split
    · rename_i hbase
      rw [h, hbase]
      rfl
    · rename_i hbase
      split
      · exact happend hbase
      · rw [String.append_assoc]
        exact happend hbase

theorem isAbsolute_foldl_join (names : List String) :
    ∀ base, isAbsolute (names.foldl join base) = true ↔
      isAbsolute base = true ∨ ∃ name ∈ names, isAbsolute name = true := by
  induction names with
  | nil => simp
  | cons name names ih =>
    intro base
    rw [List.foldl_cons, ih, isAbsolute_join]
    simp [or_assoc, or_left_comm]

/-- A text with no more than one dot leads nowhere upwards. -/
theorem not_mem_components {path : String} (h : path.toList.count '.' ≤ 1) :
    ".." ∉ components path := by
  intro hmem
  obtain ⟨part, hpart, hup⟩ := List.mem_map.1 (List.mem_of_mem_filter hmem)
  have hcount := (sublist_of_mem_slashParts hpart).count_le '.'
  have hdots : part = ['.', '.'] := by
    rw [← String.toList_ofList (l := part), hup]
    rfl
  rw [hdots] at hcount
  exact absurd (Nat.le_trans hcount h) (by decide)

theorem not_mem_components_join {base path : String} (hbase : ".." ∉ components base)
    (hpath : ".." ∉ components path) : ".." ∉ components (join base path) := by
  cases h : isAbsolute path with
  | true =>
    rw [join_of_isAbsolute h]
    exact hpath
  | false =>
    rw [components_join h, List.mem_append, not_or]
    exact ⟨hbase, hpath⟩

theorem not_mem_components_foldl_join {names : List String}
    (h : ∀ name ∈ names, ".." ∉ components name) :
    ∀ {base}, ".." ∉ components base → ".." ∉ components (names.foldl join base) := by
  induction names with
  | nil => exact id
  | cons name names ih =>
    intro base hbase
    obtain ⟨hname, hnames⟩ := List.forall_mem_cons.1 h
    exact ih hnames (not_mem_components_join hbase hname)

/-- The path is that of the directory followed by names, at least one. -/
def IsBelow (directory path : String) : Prop :=
  isAbsolute path = isAbsolute directory ∧
    ∃ names, names ≠ [] ∧ ".." ∉ names ∧ components path = components directory ++ names

theorem isBelow_join {path : String} (hrelative : isAbsolute path = false)
    (hnames : components path ≠ []) (hup : ".." ∉ components path) (directory : String) :
    IsBelow directory (join directory path) := by
  refine ⟨?_, components path, hnames, hup, components_join hrelative⟩
  rw [isAbsolute_join, hrelative, Bool.false_or]

end Path

/-! ### Places -/

namespace FileTree

theorem foldl_turn_filter (parts : List String) :
    ∀ place, (parts.filter fun part => part ≠ "" ∧ part ≠ ".").foldl turn place =
      parts.foldl turn place := by
  induction parts with
  | nil => exact fun _ => rfl
  | cons part parts ih =>
    intro place
    rw [List.filter_cons]
    split
    · exact ih _
    · rename_i hblank
      have hstay : turn place part = place := by
        rw [turn, if_pos]
        simpa [Classical.or_iff_not_imp_left] using hblank
      rw [ih, List.foldl_cons, hstay]

theorem foldl_turn_names {names : List String}
    (h : ∀ name ∈ names, name ≠ "" ∧ name ≠ "." ∧ name ≠ "..") :
    ∀ place, names.foldl turn place = place ++ names := by
  induction names with
  | nil => exact fun place => (List.append_nil place).symm
  | cons name names ih =>
    intro place
    obtain ⟨⟨hempty, hdot, hup⟩, hnames⟩ := List.forall_mem_cons.1 h
    have hturn : turn place name = place ++ [name] := by
      rw [turn, if_neg (not_or.2 ⟨hempty, hdot⟩), if_neg hup]
    rw [List.foldl_cons, hturn, ih hnames, List.append_assoc, List.singleton_append]

/-- A relative path that does not lead upwards leads from a directory to below. -/
theorem placeOf_join {t : FileTree} {path : String} (hrelative : Path.isAbsolute path = false)
    (hup : ".." ∉ Path.components path) (directory : String) :
    t.placeOf (Path.join directory path) = t.placeOf directory ++ Path.components path := by
  have hplace : ∀ path, t.placeOf path = (Path.components path).foldl turn (t.start path) :=
    fun path => (foldl_turn_filter _ _).symm
  have hstart : t.start (Path.join directory path) = t.start directory := by
    rw [start, start, Path.isAbsolute_join, hrelative, Bool.false_or]
  rw [hplace, hplace directory, hstart, Path.components_join hrelative, List.foldl_append]
  refine foldl_turn_names (fun name hname => ?_) _
  have hcounts := List.of_mem_filter hname
  rw [decide_eq_true_iff] at hcounts
  refine ⟨hcounts.1, hcounts.2, ?_⟩
  rintro rfl
  exact hup hname

end FileTree

/-! ### Targets -/

/-- The files of the target are written to paths from the root: a segment of its package starts
with a slash, or the name of a validatable class does. -/
def Target.Leaves (t : Target) : Prop :=
  (∃ segment ∈ dotted t.decl.package, Path.isAbsolute segment = true) ∨
    (t.mark = .validatable ∧ Path.isAbsolute (TypeName.ofClass t.decl).simpleName = true)

theorem not_mem_of_mem_dotted {name segment : String} (h : segment ∈ dotted name) :
    '.' ∉ segment.toList := by
  obtain ⟨w, ws, hws⟩ := exists_segmentsOf_eq_cons name.toList
  obtain ⟨cs, hcs, rfl⟩ := List.mem_map.1 h
  rw [hws] at hcs
  rw [String.toList_ofList]
  exact (segmentsOf_eq_cons_iff.1 hws).2 cs hcs

theorem not_mem_simpleName_ofClass (c : ClassDecl) :
    '.' ∉ (TypeName.ofClass c).simpleName.toList := by
  show '.' ∉ ((dotted c.name).getLastD "").toList
  rw [List.getLastD_eq_getLast?]
  cases h : (dotted c.name).getLast? with
  | none => exact List.not_mem_nil
  | some segment => exact not_mem_of_mem_dotted (List.mem_of_getLast? h)

/-- A letter, a numeral or an underscore is neither a dot nor a slash. -/
theorem not_mem_of_isIdentifier {name : String} (h : isIdentifier name = true) :
    '.' ∉ name.toList ∧ Path.isAbsolute name = false := by
  have hdot : (Text.isLetter '.' || '.' == '_') = false ∧ (Text.isWord '.' || '.' == '_') = false :=
    by decide +kernel
  have hslash : (Text.isLetter '/' || '/' == '_') = false := by decide +kernel
  unfold isIdentifier at h
  unfold Path.isAbsolute
  cases hname : name.toList with
  | nil => exact ⟨List.not_mem_nil, rfl⟩
  | cons c cs =>
    rw [hname] at h
    obtain ⟨hfirst, hrest⟩ := Bool.and_eq_true_iff.1 h
    refine ⟨?_, ?_⟩
    · rw [List.mem_cons, not_or]
      refine ⟨?_, fun hmem => ?_⟩
      · rintro rfl
        rw [hdot.1] at hfirst
        cases hfirst
      · have hword := List.all_eq_true.1 hrest _ hmem
        rw [hdot.2] at hword
        cases hword
    · rw [List.head?_cons, beq_eq_false_iff_ne]
      rintro heq
      obtain rfl := Option.some.inj heq
      rw [hslash] at hfirst
      cases hfirst

namespace Model

variable {m : Model} {c : ClassDecl} {mark : TargetMark}

/-- The base name of a model has no dot, and it starts with a slash only if the name of the
validatable class does. -/
theorem base_of_fitsMark (h : m.FitsMark c mark) :
    m.names.package = c.package ∧ '.' ∉ m.names.base.toList ∧
      (Path.isAbsolute m.names.base = true ↔
        mark = .validatable ∧ Path.isAbsolute (TypeName.ofClass c).simpleName = true) := by
  cases h with
  | @template use base _ hidentifier hnames _ =>
    rw [hnames]
    have hbase : isIdentifier base = true := by
      unfold Annotation.identifier at hidentifier
      split at hidentifier
      · split at hidentifier
        · cases hidentifier
          assumption
        · cases hidentifier
      · cases hidentifier
    obtain ⟨hdot, hrelative⟩ := not_mem_of_isIdentifier hbase
    refine ⟨rfl, hdot, ?_⟩
    show Path.isAbsolute base = true ↔ _
    simp [hrelative]
  | validatable _ _ hnames _ =>
    rw [hnames]
    refine ⟨rfl, not_mem_simpleName_ofClass c, ?_⟩
    show Path.isAbsolute (TypeName.ofClass c).simpleName = true ↔ _
    simp

theorem count_dot_ending : ∀ ending ∈ allEndings, (ending ++ ".kt").toList.count '.' = 1 := by
  decide

theorem isAbsolute_directory_iff (package : String) :
    Path.isAbsolute (directory package) = true ↔
      ∃ segment ∈ dotted package, Path.isAbsolute segment = true := by
  rw [directory, Path.isAbsolute_foldl_join]
  constructor
  · rintro (hempty | ⟨segment, hsegment, habsolute⟩)
    · cases hempty
    · exact ⟨segment, List.mem_of_mem_filter hsegment, habsolute⟩
  · rintro ⟨segment, hsegment, habsolute⟩
    refine .inr ⟨segment, List.mem_filter.2 ⟨hsegment, ?_⟩, habsolute⟩
    rw [decide_eq_true_iff]
    rintro rfl
    cases habsolute

/-- The path of a file of a model leads nowhere upwards, it names something, and it starts at the
root if the target leaves the output directory. -/
theorem path_of_mem_paths {t : Target} {option path : String} (h : m.FitsMark t.decl t.mark)
    (hpath : path ∈ m.paths option) :
    ".." ∉ Path.components path ∧ Path.components path ≠ [] ∧
      (Path.isAbsolute path = true ↔ t.Leaves) := by
  obtain ⟨ending, hending, hstem⟩ := (mem_paths_iff h).1 hpath
  obtain ⟨hpackage, hdot, hbase⟩ := base_of_fitsMark h
  have hrelative := (isEnding_of_mem ending (endings_subset hending)).not_isAbsolute
  have hjoin :
      path = Path.join (directory m.names.package) (m.names.base ++ (ending ++ ".kt")) := by
    rw [hstem, String.append_assoc, stem, Path.join_append hrelative]
  refine ⟨?_, ?_, ?_⟩
  · rw [hjoin]
    refine Path.not_mem_components_join ?_ (Path.not_mem_components ?_)
    · refine Path.not_mem_components_foldl_join (fun segment hsegment => ?_) (by decide)
      refine Path.not_mem_components (Nat.le_succ_of_le ?_)
      have hnone := not_mem_of_mem_dotted (List.mem_of_mem_filter hsegment)
      exact Nat.le_of_eq (List.count_eq_zero.2 hnone)
    · rw [String.toList_append, List.count_append, List.count_eq_zero.2 hdot, Nat.zero_add]
      exact Nat.le_of_eq (count_dot_ending ending (endings_subset hending))
  · have hkey := Path.key_append m.stem (isEnding_of_mem ending (endings_subset hending))
    have hnames : Path.components path = _ :=
      (congrArg Path.components (hstem.trans (String.append_assoc ..))).trans
        (congrArg Path.Key.names hkey)
    rw [hnames]
    exact List.append_ne_nil_of_right_ne_nil _ (List.cons_ne_nil _ _)
  · rw [hjoin, Path.isAbsolute_join, Path.isAbsolute_append hrelative, hpackage, Bool.or_eq_true,
      hbase, isAbsolute_directory_iff, or_comm]
    rfl

end Model

namespace Context

variable {ctx : Context} {t : Target} {f : GeneratedFile}

theorem path_of_mem_filesAlone (h : f ∈ ctx.filesAlone t) :
    ".." ∉ Path.components f.path ∧ Path.components f.path ≠ [] ∧
      (Path.isAbsolute f.path = true ↔ t.Leaves) := by
  cases hm : ctx.modelAlone t with
  | error p =>
    rw [filesAlone_of_error (alone_of_modelAlone_error hm)] at h
    cases h
  | ok m =>
    rw [filesAlone, alone_of_modelAlone hm] at h
    exact Model.path_of_mem_paths (fitsMark_of_modelAlone hm).1 (List.mem_map_of_mem h)

/-- A file is written below every output directory, or at the same path for every one. -/
theorem written_of_mem_filesAlone (h : f ∈ ctx.filesAlone t) :
    (¬ t.Leaves → ∀ outDir, Path.IsBelow outDir (Path.join outDir f.path)) ∧
    (t.Leaves → Path.isAbsolute f.path = true ∧ ∀ outDir, Path.join outDir f.path = f.path) := by
  obtain ⟨hup, hnames, hleaves⟩ := path_of_mem_filesAlone h
  constructor
  · intro hstays
    have hrelative : Path.isAbsolute f.path = false := by
      rw [← Bool.not_eq_true, hleaves]
      exact hstays
    exact Path.isBelow_join hrelative hnames hup
  · intro hleft
    exact ⟨hleaves.2 hleft, Path.join_of_isAbsolute (hleaves.2 hleft)⟩

end Context

/-! ### What a run writes -/

namespace Config

variable {c : Config} {t : FileTree}

/-- The files that a run writes: those generated, and the bundled library if it is asked for. -/
def writtenFiles (c : Config) (generated : List GeneratedFile) : List (String × String) :=
  c.outputFiles generated ++ if c.emitRuntime then Library.filesIn c.outDir else []

theorem emit_eq (c : Config) (t : FileTree) (generated : List GeneratedFile) :
    c.emit t generated =
      match t.writeAll (c.writtenFiles generated) with
      | (t', .ok ()) => (t', .ok ((c.writtenFiles generated).map (·.1)))
      | (t', .error refused) => (t', .error (.access refused .refused)) := by
  unfold emit writtenFiles
  dsimp only
  rw [FileTree.writeAll_append]
  cases t.writeAll (c.outputFiles generated) with
  | mk written result =>
    cases result with
    | error refused => rfl
    | ok _ =>
      dsimp only
      split
      · rw [List.map_append]
        unfold Library.writeInto
        dsimp only
        cases written.writeAll (Library.filesIn c.outDir) with
        | mk t' result =>
          cases result with
          | error refused => rfl
          | ok _ => rfl
      · rw [List.append_nil]
        rfl

theorem generateInto_of_generate {report : GenerationReport} (h : c.generate t = .ok report) :
    c.generateInto t =
      match t.writeAll (c.writtenFiles report.files) with
      | (t', .ok ()) => (t', .ok (report, (c.writtenFiles report.files).map (·.1)))
      | (t', .error refused) => (t', .error (.access refused .refused)) := by
  rw [generateInto, h]
  dsimp only
  rw [emit_eq]
  cases t.writeAll (c.writtenFiles report.files) with
  | mk t' r =>
    cases r with
    | error refused => rfl
    | ok _ => rfl

/-- The paths of the bundled library lead below the directory that it is written to. -/
theorem library_paths : ∀ f ∈ Library.sources, Path.isAbsolute f.1 = false ∧
    ".." ∉ Path.components f.1 := by
  decide +kernel

/-- The place is that of a file of a target that leaves the output directory. -/
def LeavesTo (c : Config) (t : FileTree) (place : List String) : Prop :=
  ∃ idx, c.load t = .ok idx ∧ ∃ target ∈ Context.targets ⟨idx, c.markers⟩, target.Leaves ∧
    ∃ f ∈ Context.filesAlone ⟨idx, c.markers⟩ target, place = t.placeOf f.path

theorem place_of_mem_writtenFiles {idx : DeclarationIndex} (hload : c.load t = .ok idx)
    {f : String × String}
    (h : f ∈ c.writtenFiles (Context.generationReport ⟨idx, c.markers⟩).files) :
    t.placeOf c.outDir <+: t.placeOf f.1 ∨ c.LeavesTo t (t.placeOf f.1) := by
  rcases List.mem_append.1 h with hgenerated | hlibrary
  · obtain ⟨g, hg, rfl⟩ := List.mem_map.1 hgenerated
    rw [Context.files_generationReport] at hg
    obtain ⟨target, htarget, hg⟩ := List.mem_flatMap.1 hg
    obtain ⟨hup, -, hleaves⟩ := Context.path_of_mem_filesAlone hg
    cases hpath : Path.isAbsolute g.path with
    | true =>
      refine .inr ⟨idx, hload, target, htarget, hleaves.1 hpath, g, hg, ?_⟩
      rw [Path.join_of_isAbsolute hpath]
    | false =>
      dsimp only
      rw [FileTree.placeOf_join hpath hup]
      exact .inl (List.prefix_append _ _)
  · split at hlibrary
    · obtain ⟨g, hg, rfl⟩ := List.mem_map.1 hlibrary
      obtain ⟨hrelative, hup⟩ := library_paths g hg
      dsimp only
      rw [FileTree.placeOf_join hrelative hup]
      exact .inl (List.prefix_append _ _)
    · cases hlibrary

/-- **What a run leaves as it was.**  A generated file goes below the output directory, whatever
this is, unless a segment of its package or the name of its class starts with a slash; then it
goes to the same path for every output directory.  So outside the output directory a run makes,
changes and removes no file but those of targets that leave it. -/
theorem generateInto_frame (c : Config) (t : FileTree) :
    (∀ idx, c.load t = .ok idx → ∀ f ∈ (Context.generationReport ⟨idx, c.markers⟩).files,
      ∃ target ∈ Context.targets ⟨idx, c.markers⟩,
        f ∈ Context.filesAlone ⟨idx, c.markers⟩ target ∧
        (¬ target.Leaves → ∀ outDir, Path.IsBelow outDir (Path.join outDir f.path)) ∧
        (target.Leaves → Path.isAbsolute f.path = true ∧
          ∀ outDir, Path.join outDir f.path = f.path)) ∧
    ∀ place content, ¬ t.placeOf c.outDir <+: place → ¬ c.LeavesTo t place →
      (FileTree.entry? (c.generateInto t).1 place = some (.file content) ↔
        t.entry? place = some (.file content)) := by
  constructor
  · intro idx _ f hf
    rw [Context.files_generationReport] at hf
    obtain ⟨target, htarget, hf⟩ := List.mem_flatMap.1 hf
    exact ⟨target, htarget, hf, Context.written_of_mem_filesAlone hf⟩
  intro place content hout hleaves
  cases hload : c.load t with
  | error p =>
    rw [generateInto, generate, hload]
    exact Iff.rfl
  | ok idx =>
    have hgenerate : c.generate t = .ok (Context.generationReport ⟨idx, c.markers⟩) := by
      rw [generate, hload]
      rfl
    rw [generateInto_of_generate hgenerate]
    -- no file goes to the place, and what is written elsewhere does not change it
    have hnot : ∀ f ∈ c.writtenFiles (Context.generationReport ⟨idx, c.markers⟩).files,
        place ≠ t.placeOf f.1 := by
      rintro f hf rfl
      rcases place_of_mem_writtenFiles hload hf with hbelow | hleft
      · exact hout hbelow
      · exact hleaves hleft
    cases hwrite : t.writeAll
        (c.writtenFiles (Context.generationReport ⟨idx, c.markers⟩).files) with
    | mk t' r =>
      have hsame := FileTree.file_iff_of_writeAll hwrite hnot content
      cases r with
      | error refused => exact hsame
      | ok _ => exact hsame

end Config

/-! ### Targets that leave the output directory -/

namespace Sample

/-- A template in a package, and a validatable class, whose names are paths from the root. -/
def outside : SourceFile :=
  ⟨"model/user.json",
    [.ofClass { template "UserTemplate" "User" with package := "/tmp/outside" },
      .ofClass { validatable "Item" [("age", "kotlin.Int")] with name := "/tmp/Item" }]⟩

def outsideIndex : DeclarationIndex :=
  ⟨outside.declarations.map fun d => ⟨d, "model/user.json"⟩⟩

def outsideReport : GenerationReport :=
  Context.generationReport ⟨outsideIndex, {}⟩

/-- Both are accepted, and none of their files goes below the output directory. -/
theorem outside_paths :
    DeclarationIndex.build [outside] = .ok outsideIndex ∧
    outsideReport.files.map (fun f => Path.join "out" f.path) =
      ["/tmp/outside/UserFieldFailure.kt", "/tmp/outside/User.kt", "/tmp/outside/UserParams.kt",
        "/tmp/outside/UserBuilder.kt", "/tmp/ItemFieldFailure.kt", "/tmp/ItemCompanionOf.kt"] ∧
    ∀ f ∈ outsideReport.files, ¬ Path.IsBelow "out" (Path.join "out" f.path) := by
  have hpaths : outsideReport.files.map (fun f => Path.join "out" f.path) =
      ["/tmp/outside/UserFieldFailure.kt", "/tmp/outside/User.kt", "/tmp/outside/UserParams.kt",
        "/tmp/outside/UserBuilder.kt", "/tmp/ItemFieldFailure.kt", "/tmp/ItemCompanionOf.kt"] := by
    decide +kernel
  have hroot : ∀ path ∈ outsideReport.files.map (fun f => Path.join "out" f.path),
      Path.isAbsolute path = true := by
    rw [hpaths]
    decide
  refine ⟨rfl, hpaths, fun f hf hbelow => ?_⟩
  have habsolute := hroot _ (List.mem_map_of_mem hf)
  rw [hbelow.1] at habsolute
  cases habsolute

end Sample

end ModelForge
