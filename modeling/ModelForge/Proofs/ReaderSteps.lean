/-
What the reader of JSON documents does, step by step.

The readers of values, items and members return the rest of the text with the fact that it is
shorter, by which they end.  Here this fact is forgotten, and each reader is described by the
marks that it looks for:

* `Json.read?_readValue`, `Json.read?_readItems`, `Json.read?_readMembers` — one step of each
  reader;
* `Json.all` — a property of all parts of a value;
* `Json.all_isKeptInteger_of_read` — every integer that is read has at most 64 bits, with or
  without a sign.
-/
import Mathlib.Data.List.Basic
import ModelForge.Json.Reader

namespace ModelForge.Json

/-! ### Steps of the reader -/

/-- What a reader gives and the rest, without the fact that the rest is shorter. -/
def read? {α : Type} {cs : List Char} (r : Option (Shorter α cs)) : Option (α × List Char) :=
  r.map Subtype.val

theorem read?_some {α : Type} {cs rest : List Char} (a : α) (h : (a, rest).2.length < cs.length) :
    read? (some ⟨(a, rest), h⟩ : Option (Shorter α cs)) = some (a, rest) :=
  rfl

/-- The string of the units. -/
def stringOf (units : List Nat) : Json :=
  match textOfUnits units with
  | some text => string text
  | none => unreadable

/-- What an array or object gives after its opening mark: nothing is in it if the closing mark
comes next. -/
def bracketed (close : Char) (empty : Json) (filled : Option (Json × List Char)) :
    List Char → Option (Json × List Char)
  | [] => filled
  | c :: rest => if c = close then some (empty, rest) else filled

theorem bracketed_of_ne {close : Char} {empty : Json} {filled : Option (Json × List Char)}
    {ds : List Char} (h : ∀ rest, ds ≠ close :: rest) :
    bracketed close empty filled ds = filled := by
  cases ds with
  | nil => rfl
  | cons c rest => exact if_neg fun heq => h rest (by rw [heq])

/-- What a list gives after its first item: there is more after a comma. -/
def continued {α : Type} (close : Char) (more : List Char → Option (List α × List Char)) (a : α) :
    List Char → Option (List α × List Char)
  | [] => none
  | c :: rest =>
    if c = ',' then (more rest).map fun r => (a :: r.1, r.2)
    else if c = close then some ([a], rest)
    else none

theorem continued_of_ne {α : Type} {close : Char} {more : List Char → Option (List α × List Char)}
    {a : α} {ds : List Char} (hcomma : ∀ rest, ds ≠ ',' :: rest)
    (hclose : ∀ rest, ds ≠ close :: rest) : continued close more a ds = none := by
  cases ds with
  | nil => rfl
  | cons c rest =>
    rw [continued, if_neg fun heq => hcomma rest (by rw [heq]),
      if_neg fun heq => hclose rest (by rw [heq])]

/-- What comes after a mark, if the mark comes next. -/
def afterMark {α : Type} (mark : Char) (next : List Char → Option α) : List Char → Option α
  | [] => none
  | c :: rest => if c = mark then next rest else none

theorem afterMark_of_ne {α : Type} {mark : Char} {next : List Char → Option α} {ds : List Char}
    (h : ∀ rest, ds ≠ mark :: rest) : afterMark mark next ds = none := by
  cases ds with
  | nil => rfl
  | cons c rest => exact if_neg fun heq => h rest (by rw [heq])

/-- Reads a value from a text without leading blanks. -/
def valueStep (room : Nat) : List Char → Option (Json × List Char)
  | [] => read? (readScalar [])
  | c :: ds =>
    if c = '"' then (readUnits ds).map fun r => (stringOf r.1, r.2)
    else if c = '[' then
      bracketed ']' (nest room (array []))
        ((read? (readItems (room - 1) ds)).map fun r => (nest room (array r.1), r.2)) (skipSpace ds)
    else if c = '\x7b' then
      bracketed '\x7d' (nest room (object []))
        ((read? (readMembers (room - 1) ds)).map fun r => (nest room (objectOf r.1), r.2))
        (skipSpace ds)
    else read? (readScalar (c :: ds))

theorem valueStep_of_ne {room : Nat} {ds : List Char} (hquote : ∀ rest, ds ≠ '"' :: rest)
    (hbracket : ∀ rest, ds ≠ '[' :: rest) (hbrace : ∀ rest, ds ≠ '\x7b' :: rest) :
    valueStep room ds = read? (readScalar ds) := by
  cases ds with
  | nil => rfl
  | cons c rest =>
    rw [valueStep, if_neg fun heq => hquote rest (by rw [heq]),
      if_neg fun heq => hbracket rest (by rw [heq]), if_neg fun heq => hbrace rest (by rw [heq])]

section

variable (room : Nat) (cs : List Char)

theorem read?_readValue : read? (readValue room cs) = valueStep room (skipSpace cs) := by
  rw [readValue]
  -- a string, an array, an object, or a scalar, by the first character
  split
  · rename_i ds heq
    refine Eq.trans ?_ (congrArg (valueStep room) heq).symm
    show _ = (readUnits ds).map fun r => (stringOf r.1, r.2)
    split
    · rename_i units rest hunits
      rw [read?_some, hunits]
      rfl
    · rename_i hunits
      rw [hunits]
      rfl
  · rename_i ds heq
    refine Eq.trans ?_ (congrArg (valueStep room) heq).symm
    show _ = bracketed _ _ _ (skipSpace ds)
    split
    · rename_i rest hds
      rw [read?_some, hds]
      rfl
    · rename_i hne
      rw [bracketed_of_ne hne]
      dsimp only
      split
      · rename_i hitems
        rw [read?_some, hitems]
        rfl
      · rename_i hitems
        rw [hitems]
        rfl
  · rename_i ds heq
    refine Eq.trans ?_ (congrArg (valueStep room) heq).symm
    show _ = bracketed _ _ _ (skipSpace ds)
    split
    · rename_i rest hds
      rw [read?_some, hds]
      rfl
    · rename_i hne
      rw [bracketed_of_ne hne]
      dsimp only
      split
      · rename_i hmembers
        rw [read?_some, hmembers]
        rfl
      · rename_i hmembers
        rw [hmembers]
        rfl
  · rename_i hquote hbracket hbrace
    rw [valueStep_of_ne hquote hbracket hbrace]
    split
    · rename_i hscalar
      rw [read?_some, hscalar]
      rfl
    · rename_i hscalar
      rw [hscalar]
      rfl

theorem read?_readItems :
    read? (readItems room cs) = (read? (readValue room cs)).bind fun r =>
      continued ']' (fun rest => read? (readItems room rest)) r.1 (skipSpace r.2) := by
  rw [readItems]
  cases readValue room cs with
  | none => rfl
  | some r =>
    obtain ⟨⟨item, ds⟩, h⟩ := r
    show _ = continued _ _ item (skipSpace ds)
    dsimp only
    split
    · rename_i rest heq
      refine Eq.trans ?_ (congrArg (continued _ _ item) heq).symm
      show _ = (read? (readItems room rest)).map fun r => (item :: r.1, r.2)
      cases readItems room rest with
      | none => rfl
      | some r => rfl
    · rename_i rest heq
      rw [read?_some, heq]
      rfl
    · rename_i hcomma hclose
      exact (continued_of_ne hcomma hclose).symm

theorem read?_readMembers :
    read? (readMembers room cs) =
      afterMark '"' (fun ds => (readUnits ds).bind fun u =>
        afterMark ':' (fun ds => (read? (readValue room ds)).bind fun r =>
          continued '\x7d' (fun rest => read? (readMembers room rest)) (textOfUnits u.1, r.1)
            (skipSpace r.2)) (skipSpace u.2)) (skipSpace cs) := by
  rw [readMembers]
  split
  · rename_i ds heq
    refine Eq.trans ?_ (congrArg (afterMark '"' _) heq).symm
    show _ = (readUnits ds).bind _
    split
    · rename_i hunits
      rw [hunits]
      rfl
    · rename_i units ds₁ hunits
      refine Eq.trans ?_ (congrArg (Option.bind · _) hunits).symm
      show _ = afterMark ':' _ (skipSpace ds₁)
      split
      · rename_i ds₂ hcolon
        refine Eq.trans ?_ (congrArg (afterMark ':' _) hcolon).symm
        show _ = (read? (readValue room ds₂)).bind _
        dsimp only
        cases readValue room ds₂ with
        | none => rfl
        | some r =>
          obtain ⟨⟨value, ds₃⟩, h⟩ := r
          show _ = continued '\x7d' _ (textOfUnits units, value) (skipSpace ds₃)
          dsimp only
          split
          · rename_i rest heq'
            refine Eq.trans ?_ (congrArg (continued _ _ _) heq').symm
            show _ = (read? (readMembers room rest)).map fun r =>
              ((textOfUnits units, value) :: r.1, r.2)
            cases readMembers room rest with
            | none => rfl
            | some r => rfl
          · rename_i rest heq'
            rw [read?_some, heq']
            rfl
          · rename_i hcomma hclose
            exact (continued_of_ne hcomma hclose).symm
      · rename_i hne
        exact (afterMark_of_ne hne).symm
  · rename_i hne
    exact (afterMark_of_ne hne).symm

end

theorem read?_readNumber (cs : List Char) :
    read? (readNumber cs) = (readNumeral cs).map fun r => (r.1.value, r.2) := by
  unfold readNumber
  split
  · rename_i n rest h
    rw [read?_some, h]
    rfl
  · rename_i h
    rw [h]
    rfl

/-! ### Parts of a value -/

section

variable (p : Json → Bool)

mutual

/-- Whether all parts of a value have a property, the value itself included. -/
def all : Json → Bool
  | array items => p (array items) && allItems items
  | object members => p (object members) && allMembers members
  | value => p value

/-- Whether all parts of the items have a property. -/
def allItems : List Json → Bool
  | [] => true
  | item :: items => all item && allItems items

/-- Whether all parts of the members' values have a property. -/
def allMembers : List (String × Json) → Bool
  | [] => true
  | (_, value) :: members => all value && allMembers members

end

end

theorem allItems_of_all {p : Json → Bool} {items : List Json} (h : (array items).all p = true) :
    allItems p items = true :=
  (Bool.and_eq_true_iff.1 ((all.eq_1 p items).symm.trans h)).2

theorem allMembers_of_all {p : Json → Bool} {members : List (String × Json)}
    (h : (object members).all p = true) : allMembers p members = true :=
  (Bool.and_eq_true_iff.1 ((all.eq_2 p members).symm.trans h)).2

theorem allItems_iff {p : Json → Bool} {items : List Json} :
    allItems p items = true ↔ ∀ item ∈ items, item.all p = true := by
  induction items with
  | nil => exact ⟨fun _ => nofun, fun _ => rfl⟩
  | cons item items ih => rw [allItems, Bool.and_eq_true, ih, List.forall_mem_cons]

theorem allMembers_iff {p : Json → Bool} {members : List (String × Json)} :
    allMembers p members = true ↔ ∀ m ∈ members, m.2.all p = true := by
  induction members with
  | nil => exact ⟨fun _ => nofun, fun _ => rfl⟩
  | cons m members ih => rw [allMembers, Bool.and_eq_true, ih, List.forall_mem_cons]

/-! ### Integers that are read -/

/-- Whether an integer is kept by a reader. -/
def isKept (n : Int) : Bool :=
  -Int.pow 2 63 ≤ n && n < Int.pow 2 64

theorem isKept_iff {n : Int} :
    isKept n = true ↔ -9223372036854775808 ≤ n ∧ n < 18446744073709551616 := by
  have hlow : (Int.pow 2 63 : Int) = 9223372036854775808 := rfl
  have hhigh : (Int.pow 2 64 : Int) = 18446744073709551616 := rfl
  rw [isKept, Bool.and_eq_true, decide_eq_true_iff, decide_eq_true_iff, hlow, hhigh]

/-- Whether the value itself, if it is an integer, is kept. -/
def isKeptInteger : Json → Bool
  | integer n => isKept n
  | _ => true

theorem all_integer (n : Int) : (integer n).all isKeptInteger = isKept n :=
  rfl

theorem takeFitting_lt (ds : List Char) :
    ∀ n, n < Nat.pow 2 64 → (takeFitting n ds).1 < Nat.pow 2 64 := by
  induction ds with
  | nil => exact fun _ h => h
  | cons c ds ih =>
    intro n h
    rw [takeFitting]
    split
    · exact ih _ ‹_›
    · exact h

theorem all_value (n : Numeral) : n.value.all isKeptInteger = true := by
  have hwhole : n.fittingWhole.1 < Nat.pow 2 64 := takeFitting_lt _ _ (by decide)
  have hfits : n.significand < Nat.pow 2 64 := takeFitting_lt _ _ hwhole
  have hhalf : Nat.pow 2 63 = 9223372036854775808 := rfl
  have hfull : Nat.pow 2 64 = 18446744073709551616 := rfl
  rw [hfull] at hfits
  unfold Numeral.value Numeral.wholeValue
  rw [hhalf]
  generalize n.significand = significand at hfits
  split
  · split
    · split
      · rename_i hrange
        rw [all_integer, isKept_iff]
        omega
      · rfl
    · rw [all_integer, isKept_iff]
      omega
  · split
    · rfl
    · rfl

theorem all_nest {p : Json → Bool} {room : Nat} {v : Json} (hunreadable : p unreadable = true)
    (h : v.all p = true) : (nest room v).all p = true := by
  unfold nest
  split
  · exact hunreadable
  · exact h

theorem all_stringOf (units : List Nat) : (stringOf units).all isKeptInteger = true := by
  unfold stringOf
  split
  · rfl
  · rfl

theorem all_objectOf {members : List (Option String × Json)}
    (h : ∀ m ∈ members, m.2.all isKeptInteger = true) :
    (objectOf members).all isKeptInteger = true := by
  unfold objectOf
  split
  · rename_i ms hms
    refine Bool.and_eq_true_iff.2 ⟨rfl, allMembers_iff.2 ?_⟩
    -- the values of the members are those that have been read
    induction members generalizing ms with
    | nil =>
      cases hms
      nofun
    | cons m members ih =>
      obtain ⟨hm, hmembers⟩ := List.forall_mem_cons.1 h
      rw [List.mapM_cons] at hms
      obtain ⟨⟨name, value⟩, hname, hms⟩ := Option.bind_eq_some_iff.1 hms
      obtain ⟨ms', hms', heq⟩ := Option.bind_eq_some_iff.1 hms
      obtain ⟨_, -, hvalue⟩ := Option.map_eq_some_iff.1 hname
      cases heq
      cases hvalue
      exact List.forall_mem_cons.2 ⟨hm, ih hmembers _ hms'⟩
  · rfl

theorem all_readScalar {cs rest : List Char} {v : Json}
    (h : read? (readScalar cs) = some (v, rest)) : v.all isKeptInteger = true := by
  unfold readScalar at h
  split at h
  · cases h
    rfl
  · cases h
    rfl
  · cases h
    rfl
  · rw [read?_readNumber] at h
    obtain ⟨r, -, heq⟩ := Option.map_eq_some_iff.1 h
    cases heq
    exact all_value r.1

/-- What can be in front of the rest. -/
theorem bracketed_eq_some {close : Char} {empty v : Json} {filled : Option (Json × List Char)}
    {ds rest : List Char} (h : bracketed close empty filled ds = some (v, rest)) :
    v = empty ∨ filled = some (v, rest) := by
  cases ds with
  | nil => exact .inr h
  | cons c ds =>
    rw [bracketed] at h
    split at h
    · cases h
      exact .inl rfl
    · exact .inr h

theorem continued_eq_some {α : Type} {close : Char}
    {more : List Char → Option (List α × List Char)} {a : α} {ds rest : List Char} {as : List α}
    (h : continued close more a ds = some (as, rest)) :
    as = [a] ∨ ∃ ds' as', ds = ',' :: ds' ∧ more ds' = some (as', rest) ∧ as = a :: as' := by
  cases ds with
  | nil => cases h
  | cons c ds =>
    rw [continued] at h
    split at h
    · rename_i hcomma
      obtain ⟨⟨as', _⟩, hmore, heq⟩ := Option.map_eq_some_iff.1 h
      cases heq
      exact .inr ⟨ds, as', by rw [hcomma], hmore, rfl⟩
    · split at h
      · cases h
        exact .inl rfl
      · cases h

theorem afterMark_eq_some {α : Type} {mark : Char} {next : List Char → Option α} {ds : List Char}
    {a : α} (h : afterMark mark next ds = some a) :
    ∃ ds', ds = mark :: ds' ∧ next ds' = some a := by
  cases ds with
  | nil => cases h
  | cons c ds =>
    rw [afterMark] at h
    split at h
    · exact ⟨ds, by rw [‹c = mark›], h⟩
    · cases h

theorem length_lt_of_read? {α : Type} {cs rest : List Char} {r : Option (Shorter α cs)} {a : α}
    (h : read? r = some (a, rest)) : rest.length < cs.length := by
  obtain ⟨⟨_, hlt⟩, -, rfl⟩ := Option.map_eq_some_iff.1 h
  exact hlt

/-- All integers that a reader of values finds in a text are kept. -/
def KeepsValues (cs : List Char) : Prop :=
  ∀ room v rest, read? (readValue room cs) = some (v, rest) → v.all isKeptInteger = true

/-- All integers that the readers of items and members find in a text are kept. -/
def KeepsLists (cs : List Char) : Prop :=
  (∀ room items rest, read? (readItems room cs) = some (items, rest) →
    ∀ item ∈ items, item.all isKeptInteger = true) ∧
  ∀ room members rest, read? (readMembers room cs) = some (members, rest) →
    ∀ m ∈ members, m.2.all isKeptInteger = true

theorem keepsValues_step {cs : List Char}
    (ih : ∀ ds : List Char, ds.length < cs.length → KeepsLists ds) : KeepsValues cs := by
  intro room v rest h
  rw [read?_readValue] at h
  cases hcs : skipSpace cs with
  | nil =>
    rw [hcs] at h
    exact all_readScalar h
  | cons c ds =>
    have hlt := length_lt_of_skipSpace hcs
    rw [hcs, valueStep] at h
    split at h
    · obtain ⟨u, -, heq⟩ := Option.map_eq_some_iff.1 h
      cases heq
      exact all_stringOf _
    · split at h
      · rcases bracketed_eq_some h with rfl | h
        · exact all_nest rfl rfl
        · obtain ⟨r, hr, heq⟩ := Option.map_eq_some_iff.1 h
          cases heq
          have hitems := (ih ds hlt).1 _ _ _ hr
          exact all_nest rfl (Bool.and_eq_true_iff.2 ⟨rfl, allItems_iff.2 hitems⟩)
      · split at h
        · rcases bracketed_eq_some h with rfl | h
          · exact all_nest rfl rfl
          · obtain ⟨r, hr, heq⟩ := Option.map_eq_some_iff.1 h
            cases heq
            exact all_nest rfl (all_objectOf ((ih ds hlt).2 _ _ _ hr))
        · exact all_readScalar h

theorem keepsLists_step {cs : List Char}
    (ih : ∀ ds : List Char, ds.length < cs.length → KeepsValues ds ∧ KeepsLists ds)
    (hcs : KeepsValues cs) : KeepsLists cs := by
  refine ⟨fun room items rest h => ?_, fun room members rest h => ?_⟩
  · rw [read?_readItems] at h
    obtain ⟨⟨item, ds⟩, hitem, h⟩ := Option.bind_eq_some_iff.1 h
    have hkept := hcs _ _ _ hitem
    rcases continued_eq_some h with rfl | ⟨ds', items', hds, hmore, rfl⟩
    · exact List.forall_mem_singleton.2 hkept
    · have hlt := Nat.lt_trans (length_lt_of_skipSpace hds) (length_lt_of_read? hitem)
      exact List.forall_mem_cons.2 ⟨hkept, (ih ds' hlt).2.1 _ _ _ hmore⟩
  · rw [read?_readMembers] at h
    obtain ⟨ds₁, hds₁, h⟩ := afterMark_eq_some h
    obtain ⟨⟨units, ds₂⟩, hunits, h⟩ := Option.bind_eq_some_iff.1 h
    obtain ⟨ds₃, hds₃, h⟩ := afterMark_eq_some h
    obtain ⟨⟨value, ds₄⟩, hvalue, h⟩ := Option.bind_eq_some_iff.1 h
    -- the value starts after the name, and further members after the value
    have hlt₃ : ds₃.length < cs.length :=
      Nat.lt_trans (length_lt_of_skipSpace hds₃)
        (Nat.lt_trans (length_lt_of_readUnits hunits) (length_lt_of_skipSpace hds₁))
    have hkept := (ih ds₃ hlt₃).1 _ _ _ hvalue
    rcases continued_eq_some h with rfl | ⟨ds₅, members', hds₅, hmore, rfl⟩
    · exact List.forall_mem_singleton.2 hkept
    · have hlt₅ := Nat.lt_trans (Nat.lt_trans (length_lt_of_skipSpace hds₅)
        (length_lt_of_read? hvalue)) hlt₃
      exact List.forall_mem_cons.2 ⟨hkept, (ih ds₅ hlt₅).2.2 _ _ _ hmore⟩

theorem keepsValues_and_lists (n : Nat) :
    ∀ cs : List Char, cs.length < n → KeepsValues cs ∧ KeepsLists cs := by
  -- the readers call each other on shorter and shorter texts
  induction n with
  | zero => nofun
  | succ n ih =>
    intro cs hcs
    have hshorter : ∀ ds : List Char, ds.length < cs.length → KeepsValues ds ∧ KeepsLists ds :=
      fun ds hds => ih ds (by omega)
    have hvalues := keepsValues_step fun ds hds => (hshorter ds hds).2
    exact ⟨hvalues, keepsLists_step hshorter hvalues⟩

/-- Every integer that is read is kept. -/
theorem all_isKeptInteger_of_read {text : String} {v : Json} (h : read text = some v) :
    v.all isKeptInteger = true := by
  unfold read at h
  split at h
  · rename_i value rest hlt heq
    split at h
    · cases h
      refine (keepsValues_and_lists _ text.toList (Nat.lt_succ_self _)).1 maxDepth _ rest ?_
      rw [heq]
      rfl
    · cases h
  · cases h

end ModelForge.Json
