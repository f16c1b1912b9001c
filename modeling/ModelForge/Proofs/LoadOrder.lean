/-
The order in which declarations are loaded does not count.

An index is built from files in their order, and it keeps the order.  Everything else about it
is a matter of names:

* `DeclarationIndex.build_eq_ok_iff` — an index is built if and only if the names of all that is
  entered are different, and then it has all of that;
* `DeclarationIndex.get?_eq_some_iff_mem` — so it finds what has been entered, by its name;
* `Context.agrees_of_perm` — two indexes of the same declarations agree on all names.

Hence files may be permuted, and top-level declarations within them and between them
(`DeclarationIndex.build_reordered`): runs over the one and the other index come to the same
outcome for each target and differ in the order of what they report.
-/
import Mathlib.Data.List.Perm.Basic
import ModelForge.Proofs.IndexAgreement

namespace ModelForge

/-! ### Building an index -/

/-- What is entered for a file, in order. -/
def SourceFile.entries (f : SourceFile) : List IndexEntry :=
  (f.declarations.flatMap Declaration.flatten).map (⟨·, f.path⟩)

namespace DeclarationIndex

/-- The names of all declarations in load order. -/
def names (idx : DeclarationIndex) : List String :=
  idx.entries.map IndexEntry.name

theorem entry?_eq_none_iff {idx : DeclarationIndex} {name : String} :
    idx.entry? name = none ↔ name ∉ idx.names := by
  rw [ entry?, List.find?_eq_none, names, List.mem_map]
  constructor
  · rintro h ⟨e, he, rfl⟩
    exact h e he (beq_self_eq_true _)
  · intro h e he heq
    exact h ⟨e, he, by simpa using heq⟩

theorem insert_eq_ok_iff {idx idx' : DeclarationIndex} {origin : String} {d : Declaration} :
    idx.insert origin d = .ok idx' ↔
      d.qualifiedName ∉ idx.names ∧ idx' = ⟨idx.entries ++ [⟨d, origin⟩]⟩ := by
  unfold insert
  cases h : idx.entry? d.qualifiedName with
  | some earlier =>
    have hmem : ¬ d.qualifiedName ∉ idx.names := by
      rw [← entry?_eq_none_iff, h]
      nofun
    exact ⟨nofun, fun hnew => absurd hnew.1 hmem⟩
  | none =>
    have hnew := entry?_eq_none_iff.1 h
    rw [Except.ok.injEq]
    exact ⟨fun heq => ⟨hnew, heq.symm⟩, fun heq => heq.2.symm⟩

/-- The index with entries added, which may repeat a name. -/
def extended (idx : DeclarationIndex) (es : List IndexEntry) : DeclarationIndex :=
  ⟨idx.entries ++ es⟩

theorem names_extended (idx : DeclarationIndex) (es : List IndexEntry) :
    (idx.extended es).names = idx.names ++ es.map IndexEntry.name :=
  List.map_append

theorem extended_extended (idx : DeclarationIndex) (es fs : List IndexEntry) :
    (idx.extended es).extended fs = idx.extended (es ++ fs) :=
  congrArg DeclarationIndex.mk (List.append_assoc _ _ _)

theorem nodup_of_extended {idx : DeclarationIndex} {es : List IndexEntry}
    (h : (idx.extended es).names.Nodup) : idx.names.Nodup := by
  rw [names_extended] at h
  exact (List.nodup_append.1 h).1

/-- A declaration can be entered if no name is repeated with it. -/
theorem nodup_extended_singleton {idx : DeclarationIndex} {e : IndexEntry} :
    (idx.extended [e]).names.Nodup ↔ idx.names.Nodup ∧ e.name ∉ idx.names := by
  rw [names_extended, List.map_singleton, List.nodup_append]
  constructor
  · rintro ⟨hidx, -, hnew⟩
    exact ⟨hidx, fun hmem => hnew _ hmem _ List.mem_cons_self rfl⟩
  · rintro ⟨hidx, hnew⟩
    refine ⟨hidx, List.nodup_singleton _, fun name hname other hother heq => hnew ?_⟩
    rw [← List.mem_singleton.1 hother, ← heq]
    exact hname

/-- Declarations are entered one by one as long as their names are new. -/
theorem insertAll_eq_ok_iff {origin : String} (ds : List Declaration) :
    ∀ {idx idx' : DeclarationIndex}, idx.names.Nodup →
      (insertAll origin idx ds = (idx', .ok ()) ↔
        (idx.extended (ds.map (⟨·, origin⟩))).names.Nodup ∧
          idx' = idx.extended (ds.map (⟨·, origin⟩))) := by
  induction ds with
  | nil =>
    intro idx idx' hidx
    have hsame : idx.extended [] = idx := congrArg DeclarationIndex.mk (List.append_nil _)
    rw [insertAll, List.map_nil, hsame]
    constructor
    · intro h
      exact ⟨hidx, (Prod.mk.inj h).1.symm⟩
    · rintro ⟨-, rfl⟩
      rfl
  | cons d ds ih =>
    intro idx idx' hidx
    have hcons : idx.extended ((d :: ds).map (⟨·, origin⟩)) =
        (idx.extended [⟨d, origin⟩]).extended (ds.map (⟨·, origin⟩)) :=
      (extended_extended idx [_] _).symm
    rw [insertAll, hcons]
    cases h : idx.insert origin d with
    | error p =>
      -- the name of `d` is taken, and stays so however many names are added
      refine ⟨nofun, fun ⟨hnodup, _⟩ => ?_⟩
      have hnew := (nodup_extended_singleton.1 (nodup_of_extended hnodup)).2
      rw [insert_eq_ok_iff.2 ⟨hnew, rfl⟩] at h
      cases h
    | ok idx₁ =>
      obtain ⟨hnew, rfl⟩ := insert_eq_ok_iff.1 h
      exact ih (nodup_extended_singleton.2 ⟨hidx, hnew⟩)

theorem addFiles_eq_ok_iff (files : List SourceFile) :
    ∀ {idx idx' : DeclarationIndex}, idx.names.Nodup →
      (idx.addFiles files = .ok idx' ↔
        (idx.extended (files.flatMap SourceFile.entries)).names.Nodup ∧
          idx' = idx.extended (files.flatMap SourceFile.entries)) := by
  induction files with
  | nil =>
    intro idx idx' hidx
    have hsame : idx.extended [] = idx := congrArg DeclarationIndex.mk (List.append_nil _)
    rw [addFiles, List.flatMap_nil, hsame, Except.ok.injEq]
    exact ⟨fun h => ⟨hidx, h.symm⟩, fun h => h.2.symm⟩
  | cons file files ih =>
    intro idx idx' hidx
    rw [addFiles, List.flatMap_cons, ← extended_extended]
    have hfile : ∀ {idx₁ : DeclarationIndex}, idx.addFile file = (idx₁, .ok ()) ↔
        (idx.extended file.entries).names.Nodup ∧ idx₁ = idx.extended file.entries :=
      insertAll_eq_ok_iff _ hidx
    rcases h : idx.addFile file with ⟨idx₁, p | _⟩
    · refine ⟨nofun, fun ⟨hnodup, _⟩ => ?_⟩
      rw [hfile.2 ⟨nodup_of_extended hnodup, rfl⟩] at h
      cases h
    · obtain ⟨hnodup, rfl⟩ := hfile.1 h
      exact ih hnodup

/-- An index is built of files that name nothing twice, and of no others. -/
theorem build_eq_ok_iff {files : List SourceFile} {idx : DeclarationIndex} :
    build files = .ok idx ↔
      ((files.flatMap SourceFile.entries).map IndexEntry.name).Nodup ∧
        idx = ⟨files.flatMap SourceFile.entries⟩ :=
  addFiles_eq_ok_iff files List.nodup_nil

theorem nodup_names_of_build {files : List SourceFile} {idx : DeclarationIndex}
    (h : build files = .ok idx) : idx.names.Nodup := by
  obtain ⟨hnodup, rfl⟩ := build_eq_ok_iff.1 h
  exact hnodup

theorem names_eq_map (idx : DeclarationIndex) :
    idx.names = idx.declarations.map Declaration.qualifiedName := by
  rw [names, declarations, List.map_map]
  rfl

/-! ### Look-up by name -/

/-- Where no name is entered twice, a name stands for what has been entered under it. -/
theorem get?_eq_some_iff_mem {idx : DeclarationIndex} {name : String} {d : Declaration}
    (hnodup : idx.names.Nodup) :
    idx.get? name = some d ↔ d ∈ idx.declarations ∧ d.qualifiedName = name := by
  rw [get?, Option.map_eq_some_iff, declarations, List.mem_map]
  constructor
  · rintro ⟨e, he, rfl⟩
    have hname : e.name = name := by simpa using List.find?_some he
    exact ⟨⟨e, List.mem_of_find?_eq_some he, rfl⟩, hname⟩
  · rintro ⟨⟨e, he, rfl⟩, hname⟩
    cases hfound : idx.entry? name with
    | none => exact absurd (hname ▸ List.mem_map_of_mem he) ( entry?_eq_none_iff.1 hfound)
    | some e' =>
      -- both entries have the name, and only one entry does
      have hname' : e'.name = name := by simpa using List.find?_some hfound
      have hsame := List.inj_on_of_nodup_map hnodup (List.mem_of_find?_eq_some hfound) he
        (hname'.trans hname.symm)
      exact ⟨e', rfl, by rw [hsame]⟩

/-- Indexes of the same declarations find the same under every name. -/
theorem get?_eq_of_perm {idx idx' : DeclarationIndex} (hnodup : idx.names.Nodup)
    (hperm : idx.declarations.Perm idx'.declarations) (name : String) :
    idx'.get? name = idx.get? name := by
  have hnodup' : idx'.names.Nodup := by
    rw [names_eq_map] at hnodup ⊢
    exact (hperm.map _).nodup hnodup
  refine Option.ext fun d => ?_
  rw [get?_eq_some_iff_mem hnodup, get?_eq_some_iff_mem hnodup', hperm.mem_iff]

end DeclarationIndex

/-! ### Indexes of the same declarations -/

/-- The top-level declarations of files, in load order. -/
def SourceFile.allDeclarations (files : List SourceFile) : List Declaration :=
  files.flatMap SourceFile.declarations

theorem SourceFile.declarations_entries (files : List SourceFile) :
    (files.flatMap entries).map IndexEntry.declaration =
      (allDeclarations files).flatMap Declaration.flatten := by
  rw [List.map_flatMap, allDeclarations, List.flatMap_assoc]
  refine List.flatMap_congr fun f _ => ?_
  rw [entries, List.map_map]
  exact List.map_id _

/-- The same declarations, in whatever files and in whatever order, are entered as the same
declarations. -/
theorem SourceFile.perm_entries {files files' : List SourceFile}
    (h : (allDeclarations files).Perm (allDeclarations files')) :
    ((files.flatMap entries).map IndexEntry.declaration).Perm
      ((files'.flatMap entries).map IndexEntry.declaration) := by
  rw [declarations_entries, declarations_entries]
  exact h.flatMap_right _

theorem DeclarationIndex.build_of_perm {files files' : List SourceFile}
    {idx : DeclarationIndex}
    (h : (SourceFile.allDeclarations files).Perm (SourceFile.allDeclarations files'))
    (hbuild : build files = .ok idx) :
    ∃ idx', build files' = .ok idx' ∧ idx.declarations.Perm idx'.declarations := by
  obtain ⟨hnodup, rfl⟩ := build_eq_ok_iff.1 hbuild
  have hperm := SourceFile.perm_entries h
  have hnames : ((files.flatMap SourceFile.entries).map IndexEntry.name).Perm
      ((files'.flatMap SourceFile.entries).map IndexEntry.name) := by
    have hmapped := hperm.map Declaration.qualifiedName
    rw [List.map_map, List.map_map] at hmapped
    exact hmapped
  exact ⟨_, build_eq_ok_iff.2 ⟨hnames.nodup hnodup, rfl⟩, hperm⟩

namespace Context

variable {idx idx' : DeclarationIndex} {m : Markers}

/-- Two indexes of the same declarations agree on all names. -/
theorem agrees_of_perm (hnodup : idx.names.Nodup)
    (hperm : idx.declarations.Perm idx'.declarations) (m : Markers) :
    Agrees (fun _ => True) ⟨idx, m⟩ ⟨idx', m⟩ where
  markers := rfl
  get? := fun {name} _ => DeclarationIndex.get?_eq_of_perm hnodup hperm name
  closed := fun _ _ _ _ => trivial

/-- A target whose names two contexts agree on comes to the same model over both. -/
theorem Agrees.modelAlone_eq {within : String → Prop} {ctx ctx' : Context}
    (h : Agrees within ctx ctx') {t : Target} (ht : ∀ n ∈ t.decl.mentions, within n) :
    ctx'.modelAlone t = ctx.modelAlone t := by
  rw [modelAlone, modelAlone, h.analyze ht]

theorem Agrees.alone_eq {within : String → Prop} {ctx ctx' : Context}
    (h : Agrees within ctx ctx') {t : Target} (ht : ∀ n ∈ t.decl.mentions, within n) :
    ctx'.alone t = ctx.alone t := by
  rw [alone, alone, h.generate ht]

theorem targets_perm (hperm : idx.declarations.Perm idx'.declarations) :
    (targets ⟨idx, m⟩).Perm (targets ⟨idx', m⟩) :=
  (hperm.filterMap Declaration.class?).filterMap (Target.of? m)

end Context

/-! ### Reports in another order -/

/-- Both reports have the same models and the same problems. -/
structure AnalysisReport.Reorders (r r' : AnalysisReport) : Prop where
  models : r.models.Perm r'.models
  diagnostics : r.diagnostics.Perm r'.diagnostics

/-- Both reports have the same targets, the same files and the same problems. -/
structure GenerationReport.Reorders (r r' : GenerationReport) : Prop where
  declarations : r.declarations = r'.declarations
  generated : r.generated.Perm r'.generated
  files : r.files.Perm r'.files
  diagnostics : r.diagnostics.Perm r'.diagnostics

namespace Context

variable {ctx ctx' : Context}

/-- A target that is analyzed only is given up for the problem it is given up for when its
files are generated, too. -/
theorem diagnostics_analysisReport :
    ctx.analysisReport.diagnostics = ctx.targets.filterMap ctx.diagnosticAlone := by
  show (outcomes ctx.analyze ctx.targets).filterMap Outcome.diagnostic? = _
  rw [outcomes_eq steady_analyze, List.filterMap_map]
  refine congrArg (ctx.targets.filterMap ·) (funext fun t => ?_)
  show Outcome.diagnostic? ⟨t, ctx.modelAlone t⟩ = _
  cases h : ctx.modelAlone t with
  | ok m => rw [diagnosticAlone, alone_of_modelAlone h, Outcome.diagnostic?]
  | error p => rw [diagnosticAlone, alone_of_modelAlone_error h, Outcome.diagnostic?]

theorem analysisReport_reorders (htargets : ctx.targets.Perm ctx'.targets)
    (hmodel : ∀ t, ctx'.modelAlone t = ctx.modelAlone t)
    (halone : ∀ t, ctx'.alone t = ctx.alone t) :
    ctx.analysisReport.Reorders ctx'.analysisReport := by
  have hdiagnostic : ctx'.diagnosticAlone = ctx.diagnosticAlone := by
    funext t
    rw [diagnosticAlone, diagnosticAlone, halone]
  refine ⟨?_, ?_⟩
  · rw [models_analysisReport, models_analysisReport]
    simp only [hmodel]
    exact htargets.filterMap _
  · rw [diagnostics_analysisReport, diagnostics_analysisReport, hdiagnostic]
    exact htargets.filterMap _

theorem generationReport_reorders (htargets : ctx.targets.Perm ctx'.targets)
    (halone : ∀ t, ctx'.alone t = ctx.alone t) :
    ctx.generationReport.Reorders ctx'.generationReport := by
  have hfiles : ctx'.filesAlone = ctx.filesAlone := by
    funext t
    rw [filesAlone, filesAlone, halone]
  have hdiagnostic : ctx'.diagnosticAlone = ctx.diagnosticAlone := by
    funext t
    rw [diagnosticAlone, diagnosticAlone, halone]
  refine ⟨?_, ?_, ?_, ?_⟩
  · show (outcomes ctx.generate ctx.targets).length = (outcomes ctx'.generate ctx'.targets).length
    rw [outcomes_generate, outcomes_generate, List.length_map, List.length_map, htargets.length_eq]
  · rw [generated_generationReport, generated_generationReport]
    simp only [halone]
    exact (htargets.filter _).map _
  · rw [files_generationReport, files_generationReport, hfiles]
    exact htargets.flatMap_right _
  · rw [diagnostics_generationReport, diagnostics_generationReport, hdiagnostic]
    exact htargets.filterMap _

end Context

/-- **The order of loading does not count.**  However the top-level declarations of some files
are distributed over other files and ordered there, an index is built of the ones if and only
if it is built of the others.  Both indexes then have the same declaration for every name; a
target comes to the same model and to the same files, or to the same problem, over both; and
two runs differ in the order of what they report. -/
theorem DeclarationIndex.build_reordered {files files' : List SourceFile}
    (h : (SourceFile.allDeclarations files).Perm (SourceFile.allDeclarations files')) :
    ((∃ idx, build files = .ok idx) ↔ ∃ idx', build files' = .ok idx') ∧
    ∀ idx idx' (m : Markers), build files = .ok idx → build files' = .ok idx' →
      (∀ name, idx'.get? name = idx.get? name) ∧
      (Context.targets ⟨idx, m⟩).Perm (Context.targets ⟨idx', m⟩) ∧
      (∀ t, Context.modelAlone ⟨idx', m⟩ t = Context.modelAlone ⟨idx, m⟩ t ∧
        Context.alone ⟨idx', m⟩ t = Context.alone ⟨idx, m⟩ t) ∧
      (Context.analysisReport ⟨idx, m⟩).Reorders (Context.analysisReport ⟨idx', m⟩) ∧
      (Context.generationReport ⟨idx, m⟩).Reorders (Context.generationReport ⟨idx', m⟩) := by
  constructor
  · constructor
    · rintro ⟨idx, hidx⟩
      obtain ⟨idx', hidx', -⟩ := build_of_perm h hidx
      exact ⟨idx', hidx'⟩
    · rintro ⟨idx', hidx'⟩
      obtain ⟨idx, hidx, -⟩ := build_of_perm h.symm hidx'
      exact ⟨idx, hidx⟩
  -- indexes of the same declarations agree on every name there is
  · intro idx idx' m hidx hidx'
    obtain ⟨same, hsame, hperm⟩ := build_of_perm h hidx
    obtain rfl := Except.ok.inj (hsame.symm.trans hidx')
    have hagrees := Context.agrees_of_perm (nodup_names_of_build hidx) hperm m
    have htargets := Context.targets_perm (m := m) hperm
    have hmodel : ∀ t, Context.modelAlone ⟨same, m⟩ t = Context.modelAlone ⟨idx, m⟩ t :=
      fun t => hagrees.modelAlone_eq fun _ _ => trivial
    have halone : ∀ t, Context.alone ⟨same, m⟩ t = Context.alone ⟨idx, m⟩ t :=
      fun t => hagrees.alone_eq fun _ _ => trivial
    exact ⟨fun name => hagrees.get? trivial, htargets, fun t => ⟨hmodel t, halone t⟩,
      Context.analysisReport_reorders htargets hmodel halone,
      Context.generationReport_reorders htargets halone⟩

/-! ### Files read backwards

The class `t.Shelf.Item` is nested, and the classes that it depends on come before it in the
one order and after it in the other. -/

namespace Sample

def shelf : ClassDecl :=
  { declared "Shelf" [] [] none with nested := [validatable "Item" [("deep", "t.Deep")]] }

def forwards : List SourceFile :=
  [⟨"library.json", [top, middle, bottom, deep, bare].map .ofClass⟩,
    ⟨"forms.json", [shelf, broken.decl, afterBroken.decl].map .ofClass⟩]

def backwards : List SourceFile :=
  [⟨"forms.json", [.ofClass afterBroken.decl]⟩, ⟨"none.json", []⟩,
    ⟨"library.json", [broken.decl, shelf, bare, deep, bottom, middle, top].map .ofClass⟩]

def forwardIndex : DeclarationIndex := ⟨forwards.flatMap SourceFile.entries⟩

def backwardIndex : DeclarationIndex := ⟨backwards.flatMap SourceFile.entries⟩

end Sample

theorem DeclarationIndex.build_reordered_backwards :
    build Sample.forwards = .ok Sample.forwardIndex ∧
    build Sample.backwards = .ok Sample.backwardIndex ∧
    Sample.backwardIndex.get? "t.Shelf.Item" = Sample.forwardIndex.get? "t.Shelf.Item" ∧
    (Context.generationReport ⟨Sample.forwardIndex, {}⟩).generated = ["t.Shelf.Item", "t.Last"] ∧
    (Context.generationReport ⟨Sample.backwardIndex, {}⟩).generated = ["t.Last", "t.Shelf.Item"] ∧
    Context.alone ⟨Sample.backwardIndex, {}⟩ Sample.broken =
      Context.alone ⟨Sample.forwardIndex, {}⟩ Sample.broken ∧
    (Context.generationReport ⟨Sample.forwardIndex, {}⟩).Reorders
      (Context.generationReport ⟨Sample.backwardIndex, {}⟩) := by
  have hperm : (SourceFile.allDeclarations Sample.forwards).Perm
      (SourceFile.allDeclarations Sample.backwards) :=
    (List.reverse_perm (SourceFile.allDeclarations Sample.forwards)).symm
  have hforwards : build Sample.forwards = .ok Sample.forwardIndex :=
    build_eq_ok_iff.2 ⟨by decide +kernel, rfl⟩
  have hbackwards : build Sample.backwards = .ok Sample.backwardIndex :=
    build_eq_ok_iff.2 ⟨by decide +kernel, rfl⟩
  have hgenerated : (Context.generationReport ⟨Sample.forwardIndex, {}⟩).generated =
      ["t.Shelf.Item", "t.Last"] := by decide +kernel
  have hgenerated' : (Context.generationReport ⟨Sample.backwardIndex, {}⟩).generated =
      ["t.Last", "t.Shelf.Item"] := by decide +kernel
  obtain ⟨hget, -, halone, -, hreport⟩ :=
    (build_reordered hperm).2 _ _ {} hforwards hbackwards
  exact ⟨hforwards, hbackwards, hget _, hgenerated, hgenerated', (halone _).2, hreport⟩

end ModelForge
