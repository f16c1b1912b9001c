/-
Generating a second time.

A run may write into the directory that it reads.  It makes directories and writes files with
names that no language reads.  So a second run finds the same source files in the same order, and
it writes the same files again.  But a directory that has been made may have a path that is too
long, spelled from the input directory, and such a directory ends the second walk.

* `List.filter_mergeSort` — sorting and filtering commute, so that the other files do not count;
* `FileTree.filter_holdsSource_of_writeAll` — writing leaves the entries of source files alone;
* `FileTree.directory?_of_grows` — and the input directory stays where it is;
* `FileTree.isWalkable` — no directory below the input directory ends the walk;
* `Config.sourceFiles_of_writeAll` — what a second run loads.

The statement about two runs is `Config.generateInto_generateInto`; that a second run may be
refused is `Sample.regeneration_refused`.
-/
import ModelForge.Proofs.OutputDirectory
import ModelForge.Proofs.Reserialization

/-! ### Sorting and filtering -/

namespace List

variable {α : Type}

/-- A list can be cut in one place only so that a property fails before it and holds after it. -/
theorem append_inj_of_forall {q : α → Bool} {l₁ l₂ m₁ m₂ : List α} (h : l₁ ++ l₂ = m₁ ++ m₂)
    (hl₁ : ∀ b ∈ l₁, q b = false) (hl₂ : ∀ b ∈ l₂, q b = true)
    (hm₁ : ∀ b ∈ m₁, q b = false) (hm₂ : ∀ b ∈ m₂, q b = true) : l₁ = m₁ ∧ l₂ = m₂ := by
  have hafter : ∀ {k₁ k₂ : List α}, (∀ b ∈ k₁, q b = false) → (∀ b ∈ k₂, q b = true) →
      (k₁ ++ k₂).filter q = k₂ := by
    intro k₁ k₂ hk₁ hk₂
    have hnone : k₁.filter q = [] := List.filter_eq_nil_iff.2 fun b hb => by simp [hk₁ b hb]
    rw [List.filter_append, hnone, List.filter_eq_self.2 hk₂, List.nil_append]
  have hright : l₂ = m₂ := by rw [← hafter hl₁ hl₂, h, hafter hm₁ hm₂]
  subst hright
  exact ⟨List.append_cancel_right h, rfl⟩

section Stability

variable {le : α → α → Bool} (trans : ∀ a b c, le a b → le b c → le a c)
  (total : ∀ a b, le a b || le b a)

include trans total

/-- The first element is sorted in between what it is not below and what it is below. -/
theorem exists_mergeSort_cons_eq (a : α) (l : List α) :
    ∃ l₁ l₂, (a :: l).mergeSort le = l₁ ++ a :: l₂ ∧ l.mergeSort le = l₁ ++ l₂ ∧
      (∀ b ∈ l₁, le a b = false) ∧ ∀ b ∈ l₂, le a b = true := by
  obtain ⟨l₁, l₂, hcons, hl, hbefore⟩ := List.mergeSort_cons trans total a l
  have hsorted := List.pairwise_mergeSort trans total (a :: l)
  rw [hcons, List.pairwise_append, List.pairwise_cons] at hsorted
  exact ⟨l₁, l₂, hcons, hl, fun b hb => by simpa using hbefore b hb, hsorted.2.1.1⟩

/-- Sorting is stable, so that what is left out may be left out before. -/
theorem filter_mergeSort (p : α → Bool) (l : List α) :
    (l.mergeSort le).filter p = (l.filter p).mergeSort le := by
  induction l with
  | nil => simp
  | cons a l ih =>
    obtain ⟨l₁, l₂, hcons, hl, hl₁, hl₂⟩ := exists_mergeSort_cons_eq trans total a l
    rw [hl, List.filter_append] at ih
    rw [hcons, List.filter_append]
    by_cases hp : p a = true
    · obtain ⟨m₁, m₂, hcons', hm, hm₁, hm₂⟩ :=
        exists_mergeSort_cons_eq trans total a (l.filter p)
      -- both lists without `a` are the same, and `a` stands in front of all that it is below
      obtain ⟨h₁, h₂⟩ := append_inj_of_forall (q := le a) (ih.trans hm)
        (fun b hb => hl₁ b (List.mem_of_mem_filter hb))
        (fun b hb => hl₂ b (List.mem_of_mem_filter hb)) hm₁ hm₂
      rw [List.filter_cons_of_pos hp, List.filter_cons_of_pos hp, hcons', h₁, h₂]
    · rw [List.filter_cons_of_neg hp, List.filter_cons_of_neg hp]
      exact ih

end Stability

end List

namespace ModelForge

/-! ### Source files and other entries -/

namespace Language

/-- No language reads a generated file. -/
theorem reads_append_kt (l : Language) (name : String) : l.reads (name ++ ".kt") = false := by
  have hlist : (name ++ ".kt").toList.reverse = 't' :: 'k' :: '.' :: name.toList.reverse := by
    simp
  have hextension : ∀ {e}, Path.extension? (name ++ ".kt") = some e → e = "kt" := by
    intro e he
    unfold Path.extension? at he
    rw [hlist] at he
    dsimp only at he
    split at he
    · exact (Option.some.inj he).symm
    · cases he
  cases l
  unfold reads
  cases h : Path.extension? (name ++ ".kt") with
  | none => exact Bool.and_false _
  | some e =>
    rw [hextension h]
    exact Bool.and_false _

end Language

namespace FileTree

variable {t t' : FileTree} {place : List String} {l : Language}

/-- Whether an entry is a file whose name is that of a source. -/
def holdsSource (l : Language) : List String × FileEntry → Bool
  | (names, .file _) => (names.getLast?.map l.reads).getD false
  | (_, .directory) => false

/-- Only entries that hold a source lead to source files below a place. -/
theorem filter_isSource_filterMap (place : List String) (es : List (List String × FileEntry)) :
    (es.filterMap (fileBelow? place)).filter (isSource l) =
      ((es.filter (holdsSource l)).filterMap (fileBelow? place)).filter (isSource l) := by
  rw [List.filter_filterMap, List.filterMap_filter, List.filter_filterMap]
  refine List.filterMap_congr fun e _ => ?_
  obtain ⟨names, entry⟩ := e
  cases entry with
  | directory => rfl
  | file content =>
    cases hsource : holdsSource l (names, .file content) with
    | true => rfl
    | false =>
      rw [fileBelow?]
      split
      · -- the last of the names that are left is the last of all names, if any are left
        have hnone : isSource l (names.drop place.length, content) = false := by
          unfold isSource
          rw [List.getLast?_drop]
          split
          · rfl
          · exact hsource
        exact Option.filter_some_neg (by simp [hnone])
      · rfl

theorem filter_replaceEntry {keep : List String × FileEntry → Bool} {entry : FileEntry}
    (hnew : keep (place, entry) = false) :
    ∀ {es : List (List String × FileEntry)},
      (∀ old, (place, old) ∈ es → keep (place, old) = false) →
      (replaceEntry place entry es).filter keep = es.filter keep
  | [], _ => by simp [replaceEntry, hnew]
  | (other, old) :: es, h => by
    rw [replaceEntry]
    split
    · rename_i heq
      obtain rfl : other = place := heq
      simp [hnew, h old List.mem_cons_self]
    · have hrest := filter_replaceEntry hnew fun old hold => h old (List.mem_cons_of_mem _ hold)
      rw [List.filter_cons, List.filter_cons, hrest]

/-- Made directories hold no source. -/
theorem Makes.filter_holdsSource (h : t.Makes t') :
    t'.entries.filter (holdsSource l) = t.entries.filter (holdsSource l) := by
  induction h with
  | refl => rfl
  | @directory made place _ missing ih =>
    rw [← ih]
    refine filter_replaceEntry rfl fun old hold => ?_
    -- there is nothing at the place
    have hlookup : made.entries.lookup place = none := by
      unfold entry? at missing
      split at missing
      · cases missing
      · exact missing
    have habsent := List.lookup_eq_none_iff.1 hlookup (place, old) hold
    simp at habsent

theorem filter_holdsSource_of_write {path : String} {content : FileContent}
    (hname : (Path.parts path).getLast?.map l.reads = some false)
    (h : t.write path content = .ok t') :
    t'.entries.filter (holdsSource l) = t.entries.filter (holdsSource l) := by
  obtain ⟨made, hmakes, -, rfl, hlast, -⟩ := write_eq_ok h
  have hnot : ∀ entry, holdsSource l (t.placeOf path, entry) = false := by
    intro entry
    cases entry with
    | directory => rfl
    | file _ => rw [holdsSource, hlast, hname, Option.getD_some]
  rw [← hmakes.filter_holdsSource]
  exact filter_replaceEntry (hnot _) fun old _ => hnot old

theorem filter_holdsSource_of_writeAll (files : List (String × String)) :
    ∀ {t t' : FileTree}, (∀ f ∈ files, (Path.parts f.1).getLast?.map l.reads = some false) →
      t.writeAll files = (t', .ok ()) →
      t'.entries.filter (holdsSource l) = t.entries.filter (holdsSource l) := by
  induction files with
  | nil =>
    intro t t' _ h
    cases h
    rfl
  | cons f files ih =>
    intro t t' hnames h
    obtain ⟨hname, hnames⟩ := List.forall_mem_cons.1 hnames
    obtain ⟨written, hwrite, hrest⟩ := writeAll_cons_eq_ok h
    rw [ih hnames hrest, filter_holdsSource_of_write hname hwrite]

/-! ### Loading again -/

/-- The files below a place are sorted by a total order of their names. -/
theorem filter_filesBelow (t : FileTree) (place : List String)
    (p : List String × FileContent → Bool) :
    (t.filesBelow place).filter p =
      ((t.entries.filterMap (fileBelow? place)).filter p).mergeSort
        fun a b => !List.lex b.1 a.1 := by
  refine List.filter_mergeSort (fun a b c hab hbc => ?_) (fun a b => ?_) p _
  · simp only [Bool.not_eq_true', List.lex_eq_false_iff_ge] at *
    exact List.le_trans hab hbc
  · have htotal := List.le_total a.1 b.1
    simpa only [Bool.or_eq_true, Bool.not_eq_true', List.lex_eq_false_iff_ge] using htotal

/-- Trees with the same entries that hold sources have the same source files below a place. -/
theorem filter_isSource_filesBelow
    (h : t'.entries.filter (holdsSource l) = t.entries.filter (holdsSource l))
    (place : List String) (p : List String × FileContent → Bool) :
    ((t'.filesBelow place).filter p).filter (isSource l) =
      ((t.filesBelow place).filter p).filter (isSource l) := by
  have hswap : ∀ files : List (List String × FileContent),
      (files.filter p).filter (isSource l) = (files.filter (isSource l)).filter p := by
    intro files
    rw [List.filter_filter, List.filter_filter]
    exact List.filter_congr fun _ _ => Bool.and_comm _ _
  rw [hswap, hswap, filter_filesBelow, filter_filesBelow, filter_isSource_filterMap, h,
    ← filter_isSource_filterMap]

theorem step?_of_grows (h : t.Grows t') {part : String} {next : List String}
    (hstep : t.step? place part = some next) : t'.step? place part = some next := by
  unfold step? at *
  split at hstep
  · rename_i hdirectory
    rw [h.directory hdirectory]
    dsimp only
    split at hstep
    · rename_i hblank
      rw [if_pos hblank]
      exact hstep
    · rename_i hblank
      rw [if_neg hblank]
      split at hstep
      · rename_i hup
        rw [if_pos hup]
        exact hstep
      · rename_i hup
        rw [if_neg hup]
        split at hstep
        · rename_i hthere
          rw [if_pos (h.isSome hthere)]
          exact hstep
        · cases hstep
  · cases hstep

theorem follow?_of_grows (h : t.Grows t') (parts : List String) :
    ∀ {place next : List String}, t.follow? place parts = some next →
      t'.follow? place parts = some next := by
  induction parts with
  | nil => exact id
  | cons part parts ih =>
    intro place next hfollow
    obtain ⟨first, hfirst, hrest⟩ := Option.bind_eq_some_iff.1 hfollow
    rw [follow?, step?_of_grows h hfirst]
    exact ih hrest

theorem directory?_of_grows (h : t.Grows t') {path : String}
    (hdirectory : t.directory? path = some place) : t'.directory? path = some place := by
  unfold directory? locate? resolve? at *
  obtain ⟨hlocate, hentry⟩ := Option.filter_eq_some_iff.1 hdirectory
  have hstart : t'.start path = t.start path := by rw [start, h.workDir, start]
  refine Option.filter_eq_some_iff.2 ⟨?_, ?_⟩
  · split at hlocate
    · rename_i husable
      split at hlocate
      · cases hlocate
      · rename_i hpath
        rw [if_pos husable, if_neg hpath, hstart]
        exact follow?_of_grows h _ hlocate
    · cases hlocate
  · rw [beq_iff_eq] at hentry ⊢
    exact h.directory hentry

/-- Whether every directory below a directory has a path that can be used. -/
def isWalkable (t : FileTree) (directory : String) : Bool :=
  (t.directory? directory).all fun place =>
    (t.directoriesBelow place).all fun names => isUsable (pathBelow directory names)

/-- The source files of a directory are loaded if no directory below it ends the walk. -/
theorem loadSources_of_directory? {directory : String}
    (h : t.directory? directory = some place) :
    t.loadSources l directory =
      if t.isWalkable directory then
        (((t.filesBelow place).filter fun f => isUsable (pathBelow directory f.1)).filter
          (isSource l)).mapM fun f => decodeSource l (pathBelow directory f.1) f.2
      else .error (.access directory .refused) := by
  unfold loadSources walk? isWalkable
  rw [h, Option.all_some]
  dsimp only
  cases (t.directoriesBelow place).all fun names => isUsable (pathBelow directory names) with
  | true => rfl
  | false => rfl

theorem isWalkable_of_loadSources {directory : String} {sources : List SourceFile}
    (h : t.loadSources l directory = .ok sources) : t.isWalkable directory = true := by
  cases hdirectory : t.directory? directory with
  | none => rw [isWalkable, hdirectory, Option.all_none]
  | some place =>
    rw [loadSources_of_directory? hdirectory] at h
    split at h
    · assumption
    · cases h

/-- What is loaded where files have been written that the language does not read: the same source
files as before, unless a directory that has been made ends the walk. -/
theorem loadSources_of_writeAll {files : List (String × String)} {directory : String}
    {sources : List SourceFile}
    (hnames : ∀ f ∈ files, (Path.parts f.1).getLast?.map l.reads = some false)
    (hwrite : t.writeAll files = (t', .ok ())) (h : t.loadSources l directory = .ok sources) :
    t'.loadSources l directory =
      if t'.isWalkable directory then .ok sources else .error (.access directory .refused) := by
  cases hdirectory : t.directory? directory with
  | none =>
    rw [loadSources, hdirectory] at h
    cases h
  | some place =>
    have hdirectory' := directory?_of_grows (grows_of_writeAll files hwrite) hdirectory
    have hkept := filter_holdsSource_of_writeAll files hnames hwrite
    -- both walks pass the same files on, and only the directories on the way may differ
    rw [loadSources_of_directory? hdirectory] at h
    rw [loadSources_of_directory? hdirectory', filter_isSource_filesBelow hkept]
    split at h
    · rw [h]
    · cases h

end FileTree

/-! ### Running again -/

namespace Config

variable {c : Config} {t t' : FileTree}

/-- Every file that a run writes is called by a name that no language reads. -/
theorem reads_of_mem_writtenFiles {generated : List GeneratedFile} {f : String × String}
    (h : f ∈ c.writtenFiles generated) (l : Language) :
    (Path.parts f.1).getLast?.map l.reads = some false := by
  have hlibrary : ∀ f ∈ Library.sources,
      f.1 = String.ofList (f.1.toList.take (f.1.length - 3)) ++ ".kt" := by
    decide +kernel
  have hending : ∃ path, f.1 = path ++ ".kt" := by
    have hrelative : Path.isAbsolute ".kt" = false := rfl
    rcases List.mem_append.1 h with hgenerated | hruntime
    · obtain ⟨g, -, rfl⟩ := List.mem_map.1 hgenerated
      exact ⟨_, by rw [GeneratedFile.path, Path.join_append hrelative, Path.join_append hrelative]⟩
    · split at hruntime
      · obtain ⟨g, hg, rfl⟩ := List.mem_map.1 hruntime
        dsimp only
        rw [hlibrary g hg]
        exact ⟨_, Path.join_append hrelative⟩
      · cases hruntime
  obtain ⟨path, hpath⟩ := hending
  obtain ⟨name, hname⟩ : ∃ name, (Path.parts (path ++ ".kt")).getLast? = some (name ++ ".kt") :=
    Path.getLast?_parts_append path (by decide)
  rw [hpath, hname, Option.map_some, l.reads_append_kt]

/-- The files that a run works on come from one directory, before which the bundled library may
stand. -/
theorem sourceFiles_eq_ok {sources : List SourceFile} (h : c.sourceFiles t = .ok sources) :
    ∃ l loaded, t.loadSources l c.inputDir = .ok loaded ∧
      ∀ t' : FileTree, c.sourceFiles t' = (t'.loadSources l c.inputDir).map fun loaded =>
        if c.includePrelude then Library.sourceFile :: loaded else loaded := by
  unfold sourceFiles at *
  cases hlanguage : Language.ofName c.language with
  | error p =>
    rw [hlanguage] at h
    cases h
  | ok l =>
    rw [hlanguage] at h
    change t.loadSources l c.inputDir >>= _ = _ at h
    cases hload : t.loadSources l c.inputDir with
    | error p =>
      rw [hload] at h
      cases h
    | ok loaded =>
      refine ⟨l, loaded, hload, fun t' => ?_⟩
      show t'.loadSources l c.inputDir >>= _ = _
      cases t'.loadSources l c.inputDir with
      | error p => rfl
      | ok loaded => rfl

theorem isWalkable_of_sourceFiles {sources : List SourceFile} (h : c.sourceFiles t = .ok sources) :
    t.isWalkable c.inputDir = true := by
  obtain ⟨l, loaded, hload, -⟩ := sourceFiles_eq_ok h
  exact FileTree.isWalkable_of_loadSources hload

/-- What a second run loads. -/
theorem sourceFiles_of_writeAll {generated : List GeneratedFile} {sources : List SourceFile}
    (hwrite : t.writeAll (c.writtenFiles generated) = (t', .ok ()))
    (h : c.sourceFiles t = .ok sources) :
    c.sourceFiles t' =
      if t'.isWalkable c.inputDir then .ok sources else .error (.access c.inputDir .refused) := by
  obtain ⟨l, loaded, hload, hsources⟩ := sourceFiles_eq_ok h
  have hnames : ∀ f ∈ c.writtenFiles generated,
      (Path.parts f.1).getLast?.map l.reads = some false :=
    fun f hf => reads_of_mem_writtenFiles hf l
  rw [hsources, hload] at h
  rw [hsources, FileTree.loadSources_of_writeAll hnames hwrite hload]
  cases t'.isWalkable c.inputDir with
  | true => exact h
  | false => rfl

theorem generate_eq_ok {report : GenerationReport} (h : c.generate t = .ok report) :
    ∃ sources idx, c.sourceFiles t = .ok sources ∧ DeclarationIndex.build sources = .ok idx ∧
      report = Context.generationReport ⟨idx, c.markers⟩ := by
  unfold generate load at h
  cases hsources : c.sourceFiles t with
  | error p =>
    rw [hsources] at h
    cases h
  | ok sources =>
    rw [hsources] at h
    change DeclarationIndex.build sources >>= _ = _ at h
    cases hbuild : DeclarationIndex.build sources with
    | error p =>
      rw [hbuild] at h
      cases h
    | ok idx =>
      rw [hbuild] at h
      exact ⟨sources, idx, rfl, hbuild, (Except.ok.inj h).symm⟩

theorem generateInto_eq_ok {report : GenerationReport} {paths : List String}
    (h : c.generateInto t = (t', .ok (report, paths))) :
    c.generate t = .ok report ∧ t.writeAll (c.writtenFiles report.files) = (t', .ok ()) ∧
      paths = (c.writtenFiles report.files).map (·.1) := by
  cases hgenerate : c.generate t with
  | error p =>
    rw [generateInto, hgenerate] at h
    cases h
  | ok found =>
    rw [generateInto_of_generate hgenerate] at h
    cases hwrite : t.writeAll (c.writtenFiles found.files) with
    | mk written r =>
      rw [hwrite] at h
      cases r with
      | error refused => cases h
      | ok _ =>
        cases h
        exact ⟨rfl, hwrite, rfl⟩

theorem generateInto_of_isWalkable {report : GenerationReport} {paths : List String}
    (h : c.generateInto t = (t', .ok (report, paths))) (hwalk : t'.isWalkable c.inputDir = true) :
    c.sourceFiles t' = c.sourceFiles t ∧ c.generateInto t' = (t', .ok (report, paths)) := by
  obtain ⟨hgenerate, hwrite, rfl⟩ := generateInto_eq_ok h
  obtain ⟨sources, idx, hsources, hbuild, rfl⟩ := generate_eq_ok hgenerate
  have hsources' := sourceFiles_of_writeAll hwrite hsources
  rw [if_pos hwalk] at hsources'
  have hgenerate' : c.generate t' = .ok (Context.generationReport ⟨idx, c.markers⟩) := by
    unfold generate load
    rw [hsources']
    show DeclarationIndex.build sources >>= _ = _
    rw [hbuild]
    rfl
  refine ⟨hsources'.trans hsources.symm, ?_⟩
  rw [generateInto_of_generate hgenerate', FileTree.writeAll_writeAll hwrite]

theorem generateInto_of_not_isWalkable {report : GenerationReport} {paths : List String}
    (h : c.generateInto t = (t', .ok (report, paths))) (hwalk : t'.isWalkable c.inputDir = false) :
    c.generateInto t' = (t', .error (.access c.inputDir .refused)) := by
  obtain ⟨hgenerate, hwrite, -⟩ := generateInto_eq_ok h
  obtain ⟨sources, idx, hsources, -, -⟩ := generate_eq_ok hgenerate
  have hsources' := sourceFiles_of_writeAll hwrite hsources
  rw [if_neg (by simp [hwalk])] at hsources'
  unfold generateInto generate load
  rw [hsources']
  rfl

/-- **Generating twice is generating once.**  After a run that succeeds another run finds the same
source files in the same order, comes to the same report, writes the same paths and leaves the
tree as it is, wherever the output directory lies.  The one exception is a directory below the
input directory whose path is too long, which the first run has not met but made: the other run is
then refused, and leaves the tree as it is all the same. -/
theorem generateInto_generateInto {report : GenerationReport} {paths : List String}
    (h : c.generateInto t = (t', .ok (report, paths))) :
    t.isWalkable c.inputDir = true ∧
    (t'.isWalkable c.inputDir = true →
      c.sourceFiles t' = c.sourceFiles t ∧ c.generateInto t' = (t', .ok (report, paths))) ∧
    (t'.isWalkable c.inputDir = false →
      c.generateInto t' = (t', .error (.access c.inputDir .refused))) := by
  obtain ⟨sources, idx, hsources, -, -⟩ := generate_eq_ok (generateInto_eq_ok h).1
  exact ⟨isWalkable_of_sourceFiles hsources, generateInto_of_isWalkable h,
    generateInto_of_not_isWalkable h⟩

end Config

/-! ### An output directory in the input directory -/

namespace Sample

/-- The input directory is also the output directory. -/
def within : Config :=
  { inputDir := "model", outDir := "model", includePrelude := false }

def userDocument : Json :=
  .object [("declarations", .array [.object [("kind", .string "class"),
    ("package", .string "com.acme"), ("name", .string "UserTemplate"),
    ("classKind", .string "interface"),
    ("annotations", .array [.object [("type", .string "modelsmith.annotation.ModelTemplate"),
      ("arguments", .object [("name", .string "User")])]]),
    ("properties", .array [.object [("name", .string "age"),
      ("type", .object [("name", .string "kotlin.Int")])]])]])]

def userTree : FileTree :=
  ⟨["work"], [(["work", "model"], .directory),
    (["work", "model", "user.json"], .file (.text userDocument.compact))]⟩

def userIndex : DeclarationIndex :=
  ⟨[⟨.ofClass (template "UserTemplate" "User"), "model/user.json"⟩]⟩

theorem generate_userTree :
    within.generate userTree = .ok (Context.generationReport ⟨userIndex, {}⟩) := by
  have hdirectory : userTree.directory? "model" = some ["work", "model"] := by decide +kernel
  have hwalk : userTree.isWalkable "model" = true := by decide +kernel
  have hfiles : userTree.filesBelow ["work", "model"] =
      [(["user.json"], .text userDocument.compact)] :=
    List.mergeSort_singleton _
  have hread : SourceFile.decode "model/user.json" userDocument.compact =
      .ok ⟨"model/user.json", [.ofClass (template "UserTemplate" "User")]⟩ :=
    SourceFile.decode_compact rfl (by decide) rfl
  have hload : userTree.loadSources .json "model" =
      .ok [⟨"model/user.json", [.ofClass (template "UserTemplate" "User")]⟩] := by
    rw [FileTree.loadSources_of_directory? hdirectory, if_pos hwalk, hfiles]
    show (do return [← (SourceFile.decode "model/user.json" userDocument.compact).mapError _]) = _
    rw [hread]
    rfl
  unfold Config.generate Config.load Config.sourceFiles
  show userTree.loadSources .json "model" >>= _ >>= _ >>= _ = _
  rw [hload]
  rfl

end Sample

/-- The files are generated next to the source file, and then once more. -/
theorem Config.generateInto_generateInto_within :
    ∃ t' report paths, Sample.within.generateInto Sample.userTree = (t', .ok (report, paths)) ∧
      paths = ["model/com/acme/UserFieldFailure.kt", "model/com/acme/User.kt",
        "model/com/acme/UserParams.kt", "model/com/acme/UserBuilder.kt"] ∧
      Sample.within.sourceFiles t' = Sample.within.sourceFiles Sample.userTree ∧
      Sample.within.generateInto t' = (t', .ok (report, paths)) := by
  have hrun := generateInto_of_generate Sample.generate_userTree
  have hpaths : (Sample.within.writtenFiles
      (Context.generationReport ⟨Sample.userIndex, {}⟩).files).map (·.1) =
      ["model/com/acme/UserFieldFailure.kt", "model/com/acme/User.kt",
        "model/com/acme/UserParams.kt", "model/com/acme/UserBuilder.kt"] := by
    decide +kernel
  have hwritten : (Sample.userTree.writeAll (Sample.within.writtenFiles
        (Context.generationReport ⟨Sample.userIndex, {}⟩).files)).2 = .ok () ∧
      (Sample.userTree.writeAll (Sample.within.writtenFiles
        (Context.generationReport ⟨Sample.userIndex, {}⟩).files)).1.isWalkable "model" = true := by
    decide +kernel
  cases hwrite : Sample.userTree.writeAll (Sample.within.writtenFiles
      (Context.generationReport ⟨Sample.userIndex, {}⟩).files) with
  | mk t' r =>
    rw [hwrite] at hrun hwritten
    obtain ⟨rfl, hwalk⟩ : r = .ok () ∧ _ := hwritten
    obtain ⟨hsources, hagain⟩ := (generateInto_generateInto hrun).2.1 hwalk
    exact ⟨t', _, _, hrun, hpaths, hsources, hagain⟩

/-! ### Slashes at the end of the input directory -/

namespace Path

/-- As many slashes. -/
def slashes (n : Nat) : String :=
  String.ofList (List.replicate n '/')

theorem utf8ByteSize_slashes (n : Nat) : (slashes n).utf8ByteSize = n := by
  rw [slashes, String.utf8ByteSize_ofList]
  induction n with
  | zero => rfl
  | succ n ih =>
    rw [List.replicate_succ, String.utf8Len_cons, ih]
    rfl

/-- Joining makes a path no shorter than its two parts. -/
theorem utf8ByteSize_join_ge (base path : String) (h : isAbsolute path = false) :
    base.utf8ByteSize + path.utf8ByteSize ≤ (join base path).utf8ByteSize := by
  rw [join, if_neg (by simp [h])]
  split
  · rename_i hbase
    rw [hbase, String.utf8ByteSize_empty, Nat.zero_add]
  · split
    · rw [String.utf8ByteSize_append]
    · rw [String.utf8ByteSize_append, String.utf8ByteSize_append]
      omega

theorem parts_append_slashes (path : String) :
    ∀ n, parts (path ++ slashes n) = parts path ++ List.replicate n "" := by
  have hslashes : ∀ n, slashParts (List.replicate n '/') = List.replicate (n + 1) [] := by
    intro n
    induction n with
    | zero => rfl
    | succ n ih =>
      rw [List.replicate_succ, slashParts, if_pos rfl, ih]
      rfl
  intro n
  cases n with
  | zero => simp [slashes]
  | succ n =>
    unfold parts slashes
    rw [String.toList_append, String.toList_ofList, List.replicate_succ, slashParts_append,
      hslashes, List.map_append, List.map_replicate]

end Path

namespace FileTree

variable {t : FileTree} {place : List String}

theorem follow?_append (parts parts' : List String) :
    ∀ place, t.follow? place (parts ++ parts') =
      (t.follow? place parts).bind (t.follow? · parts') := by
  induction parts with
  | nil => exact fun _ => rfl
  | cons part parts ih =>
    intro place
    rw [List.cons_append, follow?, follow?]
    cases t.step? place part with
    | none => rfl
    | some next => exact ih next

theorem follow?_replicate (h : t.entry? place = some .directory) :
    ∀ n, t.follow? place (List.replicate n "") = some place
  | 0 => rfl
  | n + 1 => by
    have hstay : t.step? place "" = some place := by
      rw [step?, h]
      rfl
    rw [List.replicate_succ, follow?, hstay]
    exact follow?_replicate h n

/-- Slashes at the end of the path of a directory count only for its length. -/
theorem directory?_append_slashes {path : String} {n : Nat} (h : t.directory? path = some place)
    (husable : isUsable (path ++ Path.slashes n) = true) :
    t.directory? (path ++ Path.slashes n) = some place := by
  unfold directory? locate? resolve? at *
  obtain ⟨hlocate, hentry⟩ := Option.filter_eq_some_iff.1 h
  split at hlocate
  · split at hlocate
    · cases hlocate
    · rename_i hpath
      have hstart : t.start (path ++ Path.slashes n) = t.start path := by
        unfold start Path.isAbsolute
        rw [String.toList_append, List.head?_append_of_ne_nil _ (by simpa using hpath)]
      have hfollow :
          t.follow? (t.start path) (Path.parts (path ++ Path.slashes n)) = some place := by
        rw [Path.parts_append_slashes, follow?_append, hlocate]
        exact follow?_replicate (beq_iff_eq.1 hentry) n
      rw [if_pos husable, if_neg (by simp [hpath]), hstart, hfollow]
      exact Option.filter_some_pos hentry
  · cases hlocate

end FileTree

namespace Sample

/-- The input directory is given by a path with slashes at the end. -/
def slashed (n : Nat) : Config :=
  { inputDir := "model" ++ Path.slashes n, outDir := "model", includePrelude := false,
    emitRuntime := true }

def emptyModel : FileTree :=
  ⟨["work"], [(["work", "model"], .directory)]⟩

theorem utf8ByteSize_slashed (n : Nat) : (slashed n).inputDir.utf8ByteSize = 5 + n := by
  rw [slashed, String.utf8ByteSize_append, Path.utf8ByteSize_slashes]
  rfl

variable {n : Nat}

/-- Nothing is loaded from the empty directory. -/
theorem generate_emptyModel (h : n ≤ 4090) :
    emptyModel.directory? (slashed n).inputDir = some ["work", "model"] ∧
      (slashed n).generate emptyModel = .ok (Context.generationReport ⟨⟨[]⟩, {}⟩) := by
  have husable : FileTree.isUsable (slashed n).inputDir = true := by
    rw [FileTree.isUsable, utf8ByteSize_slashed, decide_eq_true_iff, FileTree.maxPathLength]
    omega
  have hdirectory : emptyModel.directory? (slashed n).inputDir = some ["work", "model"] :=
    FileTree.directory?_append_slashes (by decide +kernel) husable
  have hwalk : emptyModel.isWalkable (slashed n).inputDir = true := by
    have hbelow : emptyModel.directoriesBelow ["work", "model"] = [[]] := by decide
    rw [FileTree.isWalkable, hdirectory, Option.all_some, hbelow, List.all_cons, List.all_nil,
      Bool.and_true]
    exact husable
  have hfiles : emptyModel.filesBelow ["work", "model"] = [] := List.mergeSort_nil
  refine ⟨hdirectory, ?_⟩
  unfold Config.generate Config.load Config.sourceFiles
  show emptyModel.loadSources .json (slashed n).inputDir >>= _ >>= _ >>= _ = _
  rw [FileTree.loadSources_of_directory? hdirectory, if_pos hwalk, hfiles]
  rfl

/-- The first run writes the bundled library below a directory whose path is long enough for the
second run to be refused. -/
theorem refused_of_slashed (hlong : 4081 ≤ n) (hshort : n ≤ 4090) :
    ∃ t' report paths, (slashed n).generateInto emptyModel = (t', .ok (report, paths)) ∧
      (slashed n).generateInto t' = (t', .error (.access (slashed n).inputDir .refused)) := by
  obtain ⟨hdirectory, hgenerate⟩ := generate_emptyModel hshort
  have hrun := Config.generateInto_of_generate hgenerate
  have hfiles : (slashed n).writtenFiles (Context.generationReport ⟨⟨[]⟩, {}⟩).files =
      Library.filesIn "model" := rfl
  have hlibrary : (emptyModel.writeAll (Library.filesIn "model")).2 = .ok () ∧ ["modelsmith"] ∈
      (emptyModel.writeAll (Library.filesIn "model")).1.directoriesBelow ["work", "model"] := by
    decide +kernel
  rw [hfiles] at hrun
  cases hwrite : emptyModel.writeAll (Library.filesIn "model") with
  | mk t' r =>
    rw [hwrite] at hlibrary hrun
    obtain ⟨rfl, hbelow⟩ : r = .ok () ∧ _ := hlibrary
    have hwalk : t'.isWalkable (slashed n).inputDir = false := by
      have hdirectory' :=
        FileTree.directory?_of_grows (FileTree.grows_of_writeAll _ hwrite) hdirectory
      rw [FileTree.isWalkable, hdirectory', Option.all_some, List.all_eq_false]
      refine ⟨_, hbelow, ?_⟩
      have hjoin := Path.utf8ByteSize_join_ge (slashed n).inputDir "modelsmith" rfl
      have hname : "modelsmith".utf8ByteSize = 10 := by decide +kernel
      rw [utf8ByteSize_slashed, hname] at hjoin
      show ¬ decide ((Path.join (slashed n).inputDir "modelsmith").utf8ByteSize ≤ _) = true
      rw [decide_eq_true_iff, FileTree.maxPathLength]
      omega
    exact ⟨t', _, _, hrun, Config.generateInto_of_not_isWalkable hrun hwalk⟩

/-- So it is for a path of 4090 bytes. -/
theorem regeneration_refused :
    ∃ t' report paths, (slashed 4085).generateInto emptyModel = (t', .ok (report, paths)) ∧
      (slashed 4085).generateInto t' =
        (t', .error (.access (slashed 4085).inputDir .refused)) :=
  refused_of_slashed (by decide) (by decide)

end Sample

end ModelForge
