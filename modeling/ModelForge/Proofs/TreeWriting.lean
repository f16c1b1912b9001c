/-
What writing does to a tree.

A path names a place by its parts alone, whatever there is.  To write a file at a path is to make
the directories that are missing on the way and then to put the file at this place:

* `FileTree.placeOf` — the place that a path names;
* `FileTree.Makes` — one tree is the other with missing directories made;
* `FileTree.write_eq_ok` — all that a write can do, and that it can be done again on every tree
  that has grown out of the result;
* `FileTree.Grows` — directories remain directories and files remain files;
* `FileTree.putAll` — files put at places where files are.

So what is written once may be written again: `FileTree.writeAll_writeAll`.
-/
import Mathlib.Data.List.Basic
import ModelForge.FileTree

namespace ModelForge

/-! ### Parts of paths -/

namespace Path

theorem exists_slashParts_eq_cons (cs : List Char) : ∃ w ws, slashParts cs = w :: ws := by
  cases cs with
  | nil => exact ⟨_, _, rfl⟩
  | cons c cs =>
    rw [slashParts]
    split
    · exact ⟨_, _, rfl⟩
    · split
      · exact ⟨_, _, rfl⟩
      · exact ⟨_, _, rfl⟩

theorem parts_ne_nil (path : String) : parts path ≠ [] := by
  obtain ⟨w, ws, hparts⟩ := exists_slashParts_eq_cons path.toList
  rw [parts, hparts]
  exact List.cons_ne_nil _ _

end Path

namespace FileTree

variable {t t' t'' : FileTree} {place : List String}

/-! ### Putting an entry -/

theorem lookup_cons_eq {β : Type} (other : List String) (e : List String × β)
    (es : List (List String × β)) :
    (e :: es).lookup other = if other = e.1 then some e.2 else es.lookup other := by
  rw [List.lookup_cons]
  by_cases h : other = e.1
  · simp [h]
  · rw [beq_eq_false_iff_ne.2 h, if_neg h]

theorem lookup_replaceEntry (place other : List String) (entry : FileEntry)
    (es : List (List String × FileEntry)) :
    (replaceEntry place entry es).lookup other =
      if other = place then some entry else es.lookup other := by
  induction es with
  | nil => exact lookup_cons_eq other (place, entry) []
  | cons e es ih =>
    rw [replaceEntry]
    split
    · rename_i he
      rw [lookup_cons_eq, lookup_cons_eq, he]
      split
      · rfl
      · rfl
    · rename_i he
      rw [lookup_cons_eq, lookup_cons_eq, ih]
      by_cases h : other = e.1
      · rw [if_pos h, if_pos h, if_neg (h ▸ he)]
      · rw [if_neg h, if_neg h]

theorem lookup_put_of_ne {other : List String} (h : other ≠ place) (entry : FileEntry) :
    entry? (t.put place entry) other = t.entry? other := by
  unfold entry? put
  rw [lookup_replaceEntry, if_neg h]

theorem lookup_put_self (h : t.entry? place ≠ some .directory) (entry : FileEntry) :
    entry? (t.put place entry) place = some entry := by
  unfold entry? at *
  split at h
  · exact absurd rfl h
  · rename_i hprefix
    show (if place.isPrefixOf t.workDir then _ else _) = _
    rw [if_neg hprefix, put, lookup_replaceEntry, if_pos rfl]

theorem lookup_of_file {content : FileContent} (h : t.entry? place = some (.file content)) :
    t.entries.lookup place = some (.file content) := by
  unfold entry? at h
  split at h
  · cases h
  · exact h

theorem replaceEntry_self {entry : FileEntry} :
    ∀ {es : List (List String × FileEntry)}, es.lookup place = some entry →
      replaceEntry place entry es = es
  | e :: es, h => by
    rw [lookup_cons_eq] at h
    rw [replaceEntry]
    by_cases he : e.1 = place
    · rw [if_pos he.symm] at h
      rw [if_pos he, ← Option.some.inj h, ← he]
    · rw [if_neg (Ne.symm he)] at h
      rw [if_neg he, replaceEntry_self h]

theorem replaceEntry_replaceEntry (entry entry' : FileEntry) (es : List (List String × FileEntry)) :
    replaceEntry place entry (replaceEntry place entry' es) = replaceEntry place entry es := by
  induction es with
  | nil => simp [replaceEntry]
  | cons e es ih => by_cases he : e.1 = place <;> simp [replaceEntry, he, ih]

theorem replaceEntry_comm {other : List String} (hne : place ≠ other) (entry entry' : FileEntry) :
    ∀ {es : List (List String × FileEntry)}, (es.lookup place).isSome →
      replaceEntry other entry' (replaceEntry place entry es) =
        replaceEntry place entry (replaceEntry other entry' es)
  | e :: es, h => by
    -- the entry at the first place is met, so that none is appended for it
    by_cases he : e.1 = place
    · simp [replaceEntry, he, hne]
    · by_cases ho : e.1 = other
      · simp [replaceEntry, ho, Ne.symm hne]
      · rw [lookup_cons_eq, if_neg (Ne.symm he)] at h
        simp [replaceEntry, he, ho, replaceEntry_comm hne entry entry' h]

/-! ### Trees that grow -/

/-- Directories of the one tree are directories of the other, and files are files, perhaps with
another content. -/
structure Grows (t t' : FileTree) : Prop where
  workDir : t'.workDir = t.workDir
  directory : ∀ {place}, t.entry? place = some .directory → t'.entry? place = some .directory
  file : ∀ {place content}, t.entry? place = some (.file content) →
    ∃ content', t'.entry? place = some (.file content')

namespace Grows

theorem refl (t : FileTree) : t.Grows t :=
  ⟨rfl, id, fun h => ⟨_, h⟩⟩

theorem trans (h : t.Grows t') (h' : t'.Grows t'') : t.Grows t'' where
  workDir := h'.workDir.trans h.workDir
  directory hplace := h'.directory (h.directory hplace)
  file hplace := by
    obtain ⟨content, hcontent⟩ := h.file hplace
    exact h'.file hcontent

theorem isSome (h : t.Grows t') (hplace : (t.entry? place).isSome) : (t'.entry? place).isSome := by
  obtain ⟨entry, hentry⟩ := Option.isSome_iff_exists.1 hplace
  cases entry with
  | directory => simp [h.directory hentry]
  | file content =>
    obtain ⟨content', hcontent⟩ := h.file hentry
    simp [hcontent]

end Grows

theorem grows_put_file (h : t.entry? place ≠ some .directory) (content : FileContent) :
    t.Grows (t.put place (.file content)) where
  workDir := rfl
  directory {other} hother := by
    have hne : other ≠ place := by
      rintro rfl
      exact h hother
    rw [lookup_put_of_ne hne]
    exact hother
  file {other old} hother := by
    by_cases heq : other = place
    · rw [heq]
      exact ⟨content, lookup_put_self h _⟩
    · rw [lookup_put_of_ne heq]
      exact ⟨old, hother⟩

theorem grows_put_directory (h : t.entry? place = none) : t.Grows (t.put place .directory) := by
  have hne : ∀ {other entry}, t.entry? other = some entry → other ≠ place := by
    rintro other entry hother rfl
    rw [h] at hother
    cases hother
  refine ⟨rfl, fun hother => ?_, fun hother => ?_⟩
  · rw [lookup_put_of_ne (hne hother)]
    exact hother
  · rw [lookup_put_of_ne (hne hother)]
    exact ⟨_, hother⟩

/-! ### Making directories -/

/-- The one tree is the other with missing directories made, one after another. -/
inductive Makes (t : FileTree) : FileTree → Prop
  | refl : Makes t t
  | directory {t' : FileTree} {place : List String} (made : Makes t t')
    (missing : t'.entry? place = none) : Makes t (t'.put place .directory)

namespace Makes

theorem trans (h : t.Makes t') (h' : t'.Makes t'') : t.Makes t'' := by
  induction h' with
  | refl => exact h
  | directory _ missing ih => exact .directory ih missing

theorem grows (h : t.Makes t') : t.Grows t' := by
  induction h with
  | refl => exact .refl t
  | directory _ missing ih => exact ih.trans (grows_put_directory missing)

/-- What is there stays as it is. -/
theorem keeps_entry (h : t.Makes t') {entry : FileEntry} (hplace : t.entry? place = some entry) :
    t'.entry? place = some entry := by
  induction h with
  | refl => exact hplace
  | @directory t₁ made' _ missing ih =>
    have hne : place ≠ made' := by
      rintro rfl
      rw [missing] at ih
      cases ih
    rw [lookup_put_of_ne hne]
    exact ih

/-- No file is made. -/
theorem makes_no_file (h : t.Makes t') {content : FileContent}
    (hplace : t'.entry? place = some (.file content)) : t.entry? place = some (.file content) := by
  induction h with
  | refl => exact hplace
  | @directory t₁ made' _ missing ih =>
    by_cases heq : place = made'
    · have hnew : entry? (t₁.put made' .directory) made' = some .directory :=
        lookup_put_self (by simp [missing]) .directory
      rw [heq, hnew] at hplace
      cases hplace
    · rw [lookup_put_of_ne heq] at hplace
      exact ih hplace

end Makes

/-! ### Places of paths -/

/-- The place that a part of a path names, seen from a place. -/
def turn (place : List String) (part : String) : List String :=
  if part = "" ∨ part = "." then place
  else if part = ".." then place.dropLast
  else place ++ [part]

/-- The place that a path names, whatever there is. -/
def placeOf (t : FileTree) (path : String) : List String :=
  (Path.parts path).foldl turn (t.start path)

theorem placeOf_eq_of_workDir (h : t'.workDir = t.workDir) (path : String) :
    t'.placeOf path = t.placeOf path := by
  unfold placeOf start
  rw [h]

theorem turn_of_isName {part : String} (h : isName part = true) (place : List String) :
    turn place part = place ++ [part] := by
  simp only [isName, Bool.and_eq_true, bne_iff_ne, ne_eq] at h
  simp [turn, h]

/-- A part of a path is entered by making at most the directory that it names, and it can be
entered again without making any. -/
theorem enter?_eq_some {part : String} {entered : List String}
    (h : t.enter? place part = some (t', entered)) :
    entered = turn place part ∧ t.Makes t' ∧
      ∀ {t''}, t'.Grows t'' → t''.enter? place part = some (t'', entered) := by
  unfold enter? at h
  split at h
  · rename_i hblank
    cases h
    exact ⟨by simp [turn, hblank], .refl, fun _ => by simp [enter?, hblank]⟩
  · rename_i hblank
    split at h
    · rename_i hup
      cases h
      exact ⟨by simp [turn, hup], .refl, fun _ => by simp [enter?, hup]⟩
    · rename_i hup
      split at h
      · rename_i hname
        -- the name is that of a directory, in the end
        have hagain : ∀ {t₁ t₂ : FileTree}, t₁.entry? (place ++ [part]) = some .directory →
            t₁.Grows t₂ → t₂.enter? place part = some (t₂, place ++ [part]) := by
          intro t₁ t₂ hdirectory hgrows
          have hthere := hgrows.directory hdirectory
          simp [enter?, hblank, hup, hname, hthere]
        have hturn := turn_of_isName hname place
        split at h
        · rename_i hdirectory
          cases h
          exact ⟨hturn.symm, .refl, hagain hdirectory⟩
        · cases h
        · rename_i hmissing
          cases h
          have hmade : entry? (t.put (place ++ [part]) .directory) (place ++ [part]) =
              some .directory :=
            lookup_put_self (by simp [hmissing]) .directory
          exact ⟨hturn.symm, .directory .refl hmissing, hagain hmade⟩
      · cases h

theorem enterAll?_eq_some (parts : List String) :
    ∀ {t t' : FileTree} {place entered : List String},
      t.enterAll? place parts = some (t', entered) →
      entered = parts.foldl turn place ∧ t.Makes t' ∧
        ∀ {t''}, t'.Grows t'' → t''.enterAll? place parts = some (t'', entered) := by
  induction parts with
  | nil =>
    intro t t' place entered h
    cases h
    exact ⟨rfl, .refl, fun _ => rfl⟩
  | cons part parts ih =>
    intro t t' place entered h
    rw [enterAll?] at h
    obtain ⟨⟨t₁, first⟩, hfirst, hrest⟩ := Option.bind_eq_some_iff.1 h
    obtain ⟨rfl, hmakes₁, hagain₁⟩ := enter?_eq_some hfirst
    obtain ⟨rfl, hmakes, hagain⟩ := ih hrest
    refine ⟨rfl, hmakes₁.trans hmakes, fun hgrows => ?_⟩
    rw [enterAll?, hagain₁ (hmakes.grows.trans hgrows)]
    exact hagain hgrows

/-! ### Writing a file -/

/-- A path without its last part, and then the last part. -/
theorem placeOf_eq_turn (t : FileTree) (path : String) :
    t.placeOf path = turn ((Path.parts path).dropLast.foldl turn (t.start path))
      ((Path.parts path).getLast?.getD "") := by
  have hlast := List.dropLast_append_getLast (Path.parts_ne_nil path)
  rw [List.getLast?_eq_some_getLast (Path.parts_ne_nil path), Option.getD_some]
  conv_lhs => rw [placeOf, ← hlast, List.foldl_append]
  rfl

theorem putFile?_eq_some_iff {name : String} {content : FileContent} :
    t.putFile? place name content = some t' ↔
      isName name = true ∧ t.entry? (place ++ [name]) ≠ some .directory ∧
        t' = t.put (place ++ [name]) (.file content) := by
  unfold putFile?
  split
  · rename_i hname
    rw [and_iff_right hname]
    split
    · rename_i hdirectory
      exact ⟨nofun, fun h => absurd hdirectory h.1⟩
    · rename_i hfree
      rw [Option.some.injEq]
      exact ⟨fun h => ⟨hfree, h.symm⟩, fun h => h.2.symm⟩
  · rename_i hname
    exact ⟨nofun, fun h => absurd h.1 hname⟩

/-- A file is written if the path of its directory and its own can be used, the directory can be
entered and the file put there. -/
theorem write_eq_ok_iff {path : String} {content : FileContent} :
    t.write path content = .ok t' ↔
      isUsable ((Path.parent? path).getD path) = true ∧ isUsable path = true ∧
        ∃ made place, t.enterAll? (t.start path) (Path.parts path).dropLast = some (made, place) ∧
          made.putFile? place ((Path.parts path).getLast?.getD "") content = some t' := by
  unfold write
  dsimp only
  cases isUsable ((Path.parent? path).getD path) with
  | false => simp
  | true =>
    cases t.enterAll? (t.start path) (Path.parts path).dropLast with
    | none => simp
    | some entered =>
      obtain ⟨made, place⟩ := entered
      cases isUsable path with
      | false => simp
      | true =>
        dsimp only
        cases hput : made.putFile? place ((Path.parts path).getLast?.getD "") content with
        | none => simp [hput]
        | some written => simp [hput]

/-- All that a write can do: it makes directories that are missing and puts the file at the place
that the path names, which ends in the last part of the path.  On every tree that has grown out
of the result the same path is written by putting the file there. -/
theorem write_eq_ok {path : String} {content : FileContent} (h : t.write path content = .ok t') :
    ∃ made, t.Makes made ∧ made.entry? (t.placeOf path) ≠ some .directory ∧
      t' = made.put (t.placeOf path) (.file content) ∧
      (t.placeOf path).getLast? = (Path.parts path).getLast? ∧
      ∀ {t''} content', t'.Grows t'' →
        t''.write path content' = .ok (t''.put (t.placeOf path) (.file content')) := by
  obtain ⟨hdirectory, husable, made, place, hentered, hput⟩ := write_eq_ok_iff.1 h
  obtain ⟨hplace, hmakes, hagain⟩ := enterAll?_eq_some _ hentered
  obtain ⟨hname, hfree, rfl⟩ := putFile?_eq_some_iff.1 hput
  have htarget : t.placeOf path = place ++ [(Path.parts path).getLast?.getD ""] := by
    rw [placeOf_eq_turn, ← hplace, turn_of_isName hname]
  rw [htarget]
  refine ⟨made, hmakes, hfree, rfl, ?_, fun {t''} content' hgrows => ?_⟩
  · rw [List.getLast?_concat, List.getLast?_eq_some_getLast (Path.parts_ne_nil path),
      Option.getD_some]
  · -- the directory is there, and so is a file, which is replaced
    have hgrows' := (grows_put_file hfree content).trans hgrows
    have hstart : t''.start path = t.start path := by
      rw [start, hgrows'.workDir, hmakes.grows.workDir, start]
    have hentered' := hagain hgrows'
    obtain ⟨old, hthere⟩ := hgrows.file (lookup_put_self hfree (.file content))
    rw [← hstart] at hentered'
    exact write_eq_ok_iff.2 ⟨hdirectory, husable, t'', place, hentered',
      putFile?_eq_some_iff.2 ⟨hname, by simp [hthere], rfl⟩⟩

/-! ### What a write leaves -/

section Write

variable {path : String} {content : FileContent}

theorem grows_of_write (h : t.write path content = .ok t') : t.Grows t' := by
  obtain ⟨made, hmakes, hfree, rfl, -⟩ := write_eq_ok h
  exact hmakes.grows.trans (grows_put_file hfree content)

theorem file_of_write (h : t.write path content = .ok t') :
    t'.entry? (t.placeOf path) = some (.file content) := by
  obtain ⟨made, -, hfree, rfl, -⟩ := write_eq_ok h
  exact lookup_put_self hfree _

/-- Elsewhere what is there stays as it is. -/
theorem write_keeps_entry (h : t.write path content = .ok t') {other : List String}
    (hne : other ≠ t.placeOf path) {entry : FileEntry} (hother : t.entry? other = some entry) :
    t'.entry? other = some entry := by
  obtain ⟨made, hmakes, -, rfl, -⟩ := write_eq_ok h
  rw [lookup_put_of_ne hne]
  exact hmakes.keeps_entry hother

/-- Elsewhere no file is made or changed. -/
theorem write_makes_no_file (h : t.write path content = .ok t') {other : List String}
    (hne : other ≠ t.placeOf path) {old : FileContent}
    (hother : t'.entry? other = some (.file old)) :
    t.entry? other = some (.file old) := by
  obtain ⟨made, hmakes, -, rfl, -⟩ := write_eq_ok h
  rw [lookup_put_of_ne hne] at hother
  exact hmakes.makes_no_file hother

end Write

/-! ### Writing files -/

/-- Elsewhere than at the places that the paths name, no file is made or changed, even if a file
is refused. -/
theorem writeAll_makes_no_file (files : List (String × String)) :
    ∀ {t t' : FileTree} {r : Except String Unit}, t.writeAll files = (t', r) →
      t'.workDir = t.workDir ∧ ∀ {other content}, t'.entry? other = some (.file content) →
        t.entry? other = some (.file content) ∨ ∃ f ∈ files, other = t.placeOf f.1 := by
  induction files with
  | nil =>
    intro t t' r h
    cases h
    exact ⟨rfl, .inl⟩
  | cons f files ih =>
    intro t t' r h
    rw [writeAll] at h
    cases hwrite : t.write f.1 (.text f.2) with
    | error refused =>
      rw [hwrite] at h
      cases h
      exact ⟨rfl, .inl⟩
    | ok written =>
      rw [hwrite] at h
      have hwork := (grows_of_write hwrite).workDir
      obtain ⟨hwork', hrest⟩ := ih h
      refine ⟨hwork'.trans hwork, fun {other content} hother => ?_⟩
      rcases hrest hother with hthere | ⟨g, hg, rfl⟩
      · by_cases heq : other = t.placeOf f.1
        · exact .inr ⟨f, List.mem_cons_self, heq⟩
        · exact .inl (write_makes_no_file hwrite heq hthere)
      · exact .inr ⟨g, List.mem_cons_of_mem f hg, placeOf_eq_of_workDir hwork _⟩

theorem writeAll_cons_eq_ok {f : String × String} {files : List (String × String)}
    (h : t.writeAll (f :: files) = (t', .ok ())) :
    ∃ written, t.write f.1 (.text f.2) = .ok written ∧ written.writeAll files = (t', .ok ()) := by
  rw [writeAll] at h
  cases hwrite : t.write f.1 (.text f.2) with
  | error refused =>
    rw [hwrite] at h
    cases h
  | ok written =>
    rw [hwrite] at h
    exact ⟨written, rfl, h⟩

theorem grows_of_writeAll (files : List (String × String)) :
    ∀ {t t' : FileTree}, t.writeAll files = (t', .ok ()) → t.Grows t' := by
  induction files with
  | nil =>
    intro t t' h
    cases h
    exact .refl t
  | cons f files ih =>
    intro t t' h
    obtain ⟨written, hwrite, hrest⟩ := writeAll_cons_eq_ok h
    exact (grows_of_write hwrite).trans (ih hrest)

/-- Elsewhere than at the places that the paths name, everything that is there stays as it is,
even if a file is refused. -/
theorem writeAll_keeps_entry (files : List (String × String)) :
    ∀ {t t' : FileTree} {r : Except String Unit}, t.writeAll files = (t', r) →
      ∀ {other : List String} {entry : FileEntry}, other ∉ files.map (fun f => t.placeOf f.1) →
        t.entry? other = some entry → t'.entry? other = some entry := by
  induction files with
  | nil =>
    intro t t' r h other entry _ hother
    cases h
    exact hother
  | cons f files ih =>
    intro t t' r h other entry hnot hother
    rw [writeAll] at h
    cases hwrite : t.write f.1 (.text f.2) with
    | error refused =>
      rw [hwrite] at h
      cases h
      exact hother
    | ok written =>
      rw [hwrite] at h
      rw [List.map_cons, List.mem_cons, not_or] at hnot
      refine ih h ?_ (write_keeps_entry hwrite hnot.1 hother)
      simp only [placeOf_eq_of_workDir (grows_of_write hwrite).workDir]
      exact hnot.2

/-- What is a file and where no file is written stays the same file. -/
theorem file_iff_of_writeAll {files : List (String × String)} {r : Except String Unit}
    (h : t.writeAll files = (t', r)) {other : List String}
    (hother : ∀ f ∈ files, other ≠ t.placeOf f.1) (content : FileContent) :
    t'.entry? other = some (.file content) ↔ t.entry? other = some (.file content) := by
  constructor
  · intro hthere
    rcases (writeAll_makes_no_file files h).2 hthere with hbefore | ⟨f, hf, heq⟩
    · exact hbefore
    · exact absurd heq (hother f hf)
  · refine writeAll_keeps_entry files h fun hmem => ?_
    obtain ⟨f, hf, heq⟩ := List.mem_map.1 hmem
    exact hother f hf heq.symm

/-- Files are written together as they are written in two parts. -/
theorem writeAll_append (files files' : List (String × String)) :
    ∀ t : FileTree, t.writeAll (files ++ files') =
      match t.writeAll files with
      | (written, .ok ()) => written.writeAll files'
      | (written, .error refused) => (written, .error refused) := by
  induction files with
  | nil => exact fun _ => rfl
  | cons f files ih =>
    intro t
    rw [List.cons_append, writeAll, writeAll]
    cases t.write f.1 (.text f.2) with
    | error refused => rfl
    | ok written => exact ih written

/-! ### Writing again -/

/-- The tree with files put at places. -/
def putAll (t : FileTree) (files : List (List String × String)) : FileTree :=
  files.foldl (fun t f => t.put f.1 (.file (.text f.2))) t

/-- A file with the place that its path names. -/
def target (t : FileTree) (f : String × String) : List String × String :=
  (t.placeOf f.1, f.2)

theorem map_target (h : t'.workDir = t.workDir) (files : List (String × String)) :
    files.map t'.target = files.map t.target :=
  List.map_congr_left fun f _ => by rw [target, target, placeOf_eq_of_workDir h]

/-- What has been written is written again by putting the files at their places. -/
theorem writeAll_of_grows (files : List (String × String)) :
    ∀ {t t' t'' : FileTree}, t.writeAll files = (t', .ok ()) → t'.Grows t'' →
      t''.writeAll files = (t''.putAll (files.map t.target), .ok ()) := by
  induction files with
  | nil =>
    intro t t' t'' _ _
    rfl
  | cons f files ih =>
    intro t t' t'' h hgrows
    obtain ⟨written, hwrite, hrest⟩ := writeAll_cons_eq_ok h
    have hwritten : written.Grows t'' := (grows_of_writeAll files hrest).trans hgrows
    obtain ⟨-, -, -, -, -, hagain⟩ := write_eq_ok hwrite
    -- the place of the file is one of a file, so that the tree grows once more
    obtain ⟨old, hthere⟩ := hwritten.file (file_of_write hwrite)
    have hput : t''.Grows (t''.put (t.placeOf f.1) (.file (.text f.2))) :=
      grows_put_file (by simp [hthere]) _
    have htargets : files.map written.target = files.map t.target :=
      map_target (grows_of_write hwrite).workDir files
    rw [writeAll, hagain _ hwritten]
    dsimp only
    rw [ih hrest (hgrows.trans hput), htargets]
    rfl

/-- What is put at the place of a file does not count if another file is put there later. -/
theorem putAll_put {content : FileContent} (entry : FileEntry)
    (files : List (List String × String)) :
    ∀ {t : FileTree}, t.entry? place = some (.file content) → place ∈ files.map (·.1) →
      (t.put place entry).putAll files = t.putAll files := by
  induction files with
  | nil =>
    intro t _ hmem
    cases hmem
  | cons f files ih =>
    intro t hfile hmem
    show ((t.put place entry).put f.1 _).putAll files = (t.put f.1 _).putAll files
    -- the next file replaces the entry, or it may as well be put before it
    by_cases heq : place = f.1
    · have hover : (t.put place entry).put f.1 (.file (.text f.2)) =
          t.put f.1 (.file (.text f.2)) := by
        rw [heq]
        exact congrArg (FileTree.mk t.workDir) (replaceEntry_replaceEntry _ _ _)
      rw [hover]
    · have hlater : place ∈ files.map (·.1) := by
        rw [List.map_cons, List.mem_cons] at hmem
        exact hmem.resolve_left heq
      have hswap : (t.put place entry).put f.1 (.file (.text f.2)) =
          (t.put f.1 (.file (.text f.2))).put place entry :=
        congrArg (FileTree.mk t.workDir)
          (replaceEntry_comm heq _ _ (by simp [lookup_of_file hfile]))
      rw [hswap]
      exact ih ((lookup_put_of_ne heq _).trans hfile) hlater

/-- Putting what has been written last changes nothing. -/
theorem putAll_of_writeAll (files : List (String × String)) :
    ∀ {t t' : FileTree}, t.writeAll files = (t', .ok ()) →
      t'.putAll (files.map t.target) = t' := by
  induction files with
  | nil =>
    intro t t' _
    rfl
  | cons f files ih =>
    intro t t' h
    obtain ⟨written, hwrite, hrest⟩ := writeAll_cons_eq_ok h
    have htargets : files.map written.target = files.map t.target :=
      map_target (grows_of_write hwrite).workDir files
    have hafter := htargets ▸ ih hrest
    show (t'.put (t.placeOf f.1) (.file (.text f.2))).putAll (files.map t.target) = t'
    -- the file is written over later, or it is still there
    by_cases hlater : t.placeOf f.1 ∈ (files.map t.target).map (·.1)
    · obtain ⟨old, hthere⟩ := (grows_of_writeAll files hrest).file (file_of_write hwrite)
      rw [putAll_put _ _ hthere hlater]
      exact hafter
    · have hnot : t.placeOf f.1 ∉ files.map fun g => written.placeOf g.1 := by
        rw [← htargets, List.map_map] at hlater
        exact hlater
      have hstill := writeAll_keeps_entry files hrest hnot (file_of_write hwrite)
      have hsame : t'.put (t.placeOf f.1) (.file (.text f.2)) = t' :=
        congrArg (FileTree.mk t'.workDir) (replaceEntry_self (lookup_of_file hstill))
      rw [hsame]
      exact hafter

/-- **Files that have been written are written again** without any change to the tree, even if
some of them lie at the same place. -/
theorem writeAll_writeAll {files : List (String × String)}
    (h : t.writeAll files = (t', .ok ())) : t'.writeAll files = (t', .ok ()) := by
  rw [writeAll_of_grows files h (.refl t'), putAll_of_writeAll files h]

end FileTree

end ModelForge
