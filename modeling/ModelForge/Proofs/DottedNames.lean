/-
Dotted names and their segments.

* `segmentsOf_eq_cons_iff` — the segments of a text are the one way of writing it as texts
  without dots, with a dot in front of each but the first;
* `intercalate_dotted` — the segments with dots between them are the name again;
* `dotted_intercalate` — and the other way round, for segments without dots;
* `TypeName.canonicalName_ofClass` — so a declared class is written by its qualified name;
* `dotted_append` — two names with a dot between them have the segments of both;
* `eq_of_qualify_eq` — a package is read off from a qualified name whose last part is known.
-/
import ModelForge.TypeName

namespace ModelForge

theorem segmentsOf_ne_nil (cs : List Char) : segmentsOf cs ≠ [] := by
  cases cs with
  | nil => exact nofun
  | cons c cs =>
    unfold segmentsOf
    split
    · exact nofun
    · split
      · exact nofun
      · exact nofun

theorem exists_segmentsOf_eq_cons (cs : List Char) : ∃ w ws, segmentsOf cs = w :: ws :=
  List.exists_cons_of_ne_nil (segmentsOf_ne_nil cs)

/-- A text without dots in front goes into the first segment. -/
theorem segmentsOf_append {w : List Char} (hw : '.' ∉ w) {cs v : List Char}
    {vs : List (List Char)} (h : segmentsOf cs = v :: vs) :
    segmentsOf (w ++ cs) = (w ++ v) :: vs := by
  induction w with
  | nil => exact h
  | cons c w ih =>
    obtain ⟨hc, hw⟩ := List.ne_and_not_mem_of_not_mem_cons hw
    rw [List.cons_append, segmentsOf, if_neg hc.symm, ih hw]
    rfl

theorem segmentsOf_eq_cons_iff {cs w : List Char} {ws : List (List Char)} :
    segmentsOf cs = w :: ws ↔ cs = w ++ ws.flatMap ('.' :: ·) ∧ ∀ v ∈ w :: ws, '.' ∉ v := by
  constructor
  · intro h
    induction cs generalizing w ws with
    | nil =>
      cases h
      exact ⟨rfl, by simp⟩
    | cons c cs ih =>
      obtain ⟨v, vs, hvs⟩ := exists_segmentsOf_eq_cons cs
      obtain ⟨heq, hdots⟩ := ih hvs
      unfold segmentsOf at h
      rw [hvs] at h
      split at h
      · -- a dot starts a new segment
        rename_i hc
        cases h
        rw [List.forall_mem_cons]
        refine ⟨?_, List.not_mem_nil, hdots⟩
        rw [heq, hc]
        rfl
      · rename_i hc
        cases h
        rw [List.forall_mem_cons] at hdots ⊢
        refine ⟨?_, ?_, hdots.2⟩
        · rw [heq]
          rfl
        · exact List.not_mem_cons_of_ne_of_not_mem (Ne.symm hc) hdots.1
  · rintro ⟨rfl, hdots⟩
    induction ws generalizing w with
    | nil =>
      have hnil : segmentsOf [] = [] :: [] := rfl
      have hw := segmentsOf_append (hdots w List.mem_cons_self) hnil
      rw [List.append_nil] at hw
      rw [List.flatMap_nil, List.append_nil]
      exact hw
    | cons v ws ih =>
      obtain ⟨hw, hws⟩ := List.forall_mem_cons.1 hdots
      have hdot : segmentsOf ('.' :: (v ++ ws.flatMap ('.' :: ·))) = [] :: v :: ws := by
        rw [segmentsOf, if_pos rfl, ih hws]
      have hjoin := segmentsOf_append hw hdot
      rw [List.append_nil] at hjoin
      exact hjoin

theorem intercalate_cons (w : List Char) (ws : List (List Char)) :
    ['.'].intercalate (w :: ws) = w ++ ws.flatMap ('.' :: ·) := by
  induction ws generalizing w with
  | nil => simp
  | cons v ws ih => simp [ih v]

theorem intercalate_dotted (name : String) : String.intercalate "." (dotted name) = name := by
  obtain ⟨w, ws, hws⟩ := exists_segmentsOf_eq_cons name.toList
  have hid : String.toList ∘ String.ofList = id := funext fun _ => String.toList_ofList
  rw [← String.toList_inj, String.toList_intercalate, dotted, List.map_map, hid, List.map_id, hws]
  exact (intercalate_cons w ws).trans (segmentsOf_eq_cons_iff.1 hws).1.symm

/-- Names without dots can be read off from their dotted form. -/
theorem dotted_intercalate {names : List String} (hne : names ≠ [])
    (hdots : ∀ n ∈ names, '.' ∉ n.toList) : dotted (String.intercalate "." names) = names := by
  obtain ⟨first, others, rfl⟩ := List.exists_cons_of_ne_nil hne
  have hsegments : segmentsOf (String.intercalate "." (first :: others)).toList =
      first.toList :: others.map String.toList := by
    rw [segmentsOf_eq_cons_iff, String.toList_intercalate]
    exact ⟨intercalate_cons _ _, by simpa using hdots⟩
  have hid : String.ofList ∘ String.toList = id := funext fun _ => String.ofList_toList
  rw [dotted, hsegments, ← List.map_cons, List.map_map, hid, List.map_id]

theorem segmentsOf_append_dot (as bs : List Char) :
    segmentsOf (as ++ '.' :: bs) = segmentsOf as ++ segmentsOf bs := by
  induction as with
  | nil => simp [segmentsOf]
  | cons a as ih =>
    by_cases hdot : a = '.'
    · simp [segmentsOf, hdot, ih]
    · obtain ⟨w, ws, hws⟩ := exists_segmentsOf_eq_cons as
      rw [hws] at ih
      simp [segmentsOf, hdot, ih, hws]

/-- The segments of two names with a dot between them are those of both. -/
theorem dotted_append (a b : String) : dotted (a ++ "." ++ b) = dotted a ++ dotted b := by
  have hlist : (a ++ "." ++ b).toList = a.toList ++ '.' :: b.toList := by simp
  rw [dotted, hlist, segmentsOf_append_dot, List.map_append]
  rfl

/-- The segments of the first name are segments of all of them. -/
theorem dotted_subset_intercalate (first : String) (others : List String) :
    dotted first ⊆ dotted (String.intercalate "." (first :: others)) := by
  cases others with
  | nil => simp
  | cons second others =>
    rw [String.intercalate_cons_cons, dotted_append]
    exact List.subset_append_left _ _

theorem TypeName.canonicalName_ofClass (c : ClassDecl) :
    (TypeName.ofClass c).canonicalName = c.qualifiedName := by
  show qualify c.package (String.intercalate "." (dotted c.name)) = _
  rw [intercalate_dotted]
  rfl

/-! ### Packages -/

/-- A package that is there can be read off from the qualified name. -/
theorem eq_of_qualify_eq {p q name : String} (hq : q ≠ "") (h : qualify q name = qualify p name) :
    p = q := by
  by_cases hp : p = ""
  · have hlength := congrArg String.length h
    simp [qualify, hq, hp] at hlength
  · have hlist := congrArg String.toList h
    simp only [qualify, hq, hp, if_false, String.toList_append] at hlist
    exact String.toList_inj.1 (List.append_cancel_right (List.append_cancel_right hlist)).symm

theorem qualify_ne_self {q : String} (name : String) (hq : q ≠ "") : qualify q name ≠ name := by
  intro h
  have hlength := congrArg String.length h
  simp [qualify, hq] at hlength

theorem lastSegment_qualify {q name : String} (hq : q ≠ "") (hname : '.' ∉ name.toList) :
    TypeRef.lastSegment (qualify q name) = name := by
  have hall : ∀ c ∈ name.toList.reverse, (c != '.') = true := by
    intro c hc
    rw [List.mem_reverse] at hc
    simp only [bne_iff_ne, ne_eq]
    rintro rfl
    exact hname hc
  have htake : (name.toList.reverse ++ '.' :: q.toList.reverse).takeWhile (· != '.') =
      name.toList.reverse := by
    rw [List.takeWhile_append_of_pos hall]
    simp
  simp [TypeRef.lastSegment, qualify, hq, htake]

end ModelForge
