/-
What is written on one line is read back.

A value is exact if all its numbers are integers that a reader keeps and if it has a meaning
throughout.  An exact value is read from its compact text as it was written, down to the depth
that the reader admits:

* `Json.all` — a property of all parts of a value, `Json.isExact` what can be written exactly;
* `Json.readUnits_quoted` — the units of a string that is written in quotes;
* `Json.readNumeral_digits`, `Json.value_whole` — the number that is written with the digits
  of an integer;
* `Json.pruned` — a value as it is read with limited room: what is nested too deeply has no
  meaning any more;
* `Json.read_compact` — reading the compact text of an exact value prunes it.
-/
import ModelForge.Json.Printer
import ModelForge.Proofs.ReaderSteps
import ModelForge.Proofs.TypeParsing

namespace ModelForge.Json

/-! ### Exact values -/

/-- Whether the value itself, apart from its parts, is written as what it is. -/
def isFaithful : Json → Bool
  | integer n => isKept n
  | fraction | unreadable => false
  | _ => true

/-- Whether the value is written as what it is throughout. -/
def isExact (value : Json) : Bool :=
  all isFaithful value

theorem isExact_array (items : List Json) :
    (array items).isExact = allItems isFaithful items :=
  all.eq_1 isFaithful items

theorem isExact_object (members : List (String × Json)) :
    (object members).isExact = allMembers isFaithful members :=
  all.eq_2 isFaithful members

mutual

/-- A value that is written as what it is has a meaning. -/
theorem isReadable_of_isExact : ∀ {v : Json}, v.isExact = true → v.isReadable = true
  | .null, _ | .bool _, _ | .integer _, _ | .string _, _ => rfl
  | .fraction, h | .unreadable, h => by cases h
  | .array _, h => areReadable_of_isExact (allItems_of_all h)
  | .object _, h => areMembersReadable_of_isExact (allMembers_of_all h)

theorem areReadable_of_isExact : ∀ {items : List Json}, allItems isFaithful items = true →
    areReadable items = true
  | [], _ => rfl
  | _ :: _, h => by
    obtain ⟨hitem, hitems⟩ := Bool.and_eq_true_iff.1 h
    exact Bool.and_eq_true_iff.2 ⟨isReadable_of_isExact hitem, areReadable_of_isExact hitems⟩

theorem areMembersReadable_of_isExact : ∀ {members : List (String × Json)},
    allMembers isFaithful members = true → areMembersReadable members = true
  | [], _ => rfl
  | (_, _) :: _, h => by
    obtain ⟨hvalue, hmembers⟩ := Bool.and_eq_true_iff.1 h
    exact Bool.and_eq_true_iff.2
      ⟨isReadable_of_isExact hvalue, areMembersReadable_of_isExact hmembers⟩

end

/-! ### Numbers -/

theorem digitsValue_toDigits (n : Nat) : digitsValue (Nat.toDigits 10 n) = n := by
  have h := Nat.ofDigitChars_toDigits (b := 10) (n := n) (by decide) (by decide)
  rw [Nat.ofDigitChars] at h
  rw [digitsValue]
  simp only [Nat.mul_comm _ 10]
  exact h

theorem isDigit_of_mem_toDigits {n : Nat} {c : Char} (h : c ∈ Nat.toDigits 10 n) :
    c.isDigit = true :=
  Nat.isDigit_of_mem_toDigits (by decide) (by decide) h

theorem head_digitChar : ∀ n < 10, 0 < n → [Nat.digitChar n].head? ≠ some '0' := by
  decide

/-- A number other than zero is not written with a leading zero. -/
theorem head?_toDigits (n : Nat) (hn : 0 < n) : (Nat.toDigits 10 n).head? ≠ some '0' := by
  induction n using Nat.strongRecOn with
  | ind n ih =>
    rw [Nat.toDigits_eq_if (by decide)]
    split
    · rename_i hlt
      exact head_digitChar n hlt hn
    · rename_i hle
      have hdiv : 0 < n / 10 := Nat.div_pos (Nat.le_of_not_lt hle) (by decide)
      have hrest := ih (n / 10) (Nat.div_lt_self hn (by decide)) hdiv
      rw [List.head?_append_of_ne_nil _ Nat.toDigits_ne_nil]
      exact hrest

/-- What may come after a value: its end, or a mark that cannot belong to a number. -/
def Closing (cs : List Char) : Prop :=
  ∀ c ∈ cs.head?, c = ',' ∨ c = ']' ∨ c = '\x7d'

theorem Closing.not_isDigit {cs : List Char} (h : Closing cs) :
    ∀ c ∈ cs.head?, c.isDigit = false := by
  intro c hc
  rcases h c hc with rfl | rfl | rfl
  · rfl
  · rfl
  · rfl

theorem readDigits_append {ds rest : List Char} (hne : ds ≠ []) (hds : ∀ c ∈ ds, c.isDigit = true)
    (hrest : Closing rest) : readDigits (ds ++ rest) = some (ds, rest) := by
  obtain ⟨htake, hdrop⟩ :=
    TypeRef.takeWhile_dropWhile_iff.2 ⟨rfl, hds, hrest.not_isDigit⟩
  unfold readDigits
  rw [htake, hdrop, if_neg (by simpa using hne)]

/-- The digits of a number are read up to its end. -/
theorem readWhole_toDigits (n : Nat) {rest : List Char} (hrest : Closing rest) :
    readWhole (Nat.toDigits 10 n ++ rest) = some (Nat.toDigits 10 n, rest) := by
  have hdigits : readDigits (Nat.toDigits 10 n ++ rest) = some (Nat.toDigits 10 n, rest) :=
    readDigits_append Nat.toDigits_ne_nil (fun _ => isDigit_of_mem_toDigits) hrest
  rcases Nat.eq_zero_or_pos n with rfl | hn
  · cases rest with
    | nil => rfl
    | cons c cs =>
      show (if c.isDigit then none else some (['0'], c :: cs)) = _
      rw [if_neg (by simp [hrest.not_isDigit c rfl])]
      rfl
  · unfold readWhole
    split
    · rename_i c cs heq
      -- the first digit of a positive number is not a zero
      have hhead := congrArg List.head? heq
      rw [List.head?_append_of_ne_nil _ Nat.toDigits_ne_nil] at hhead
      exact absurd hhead (head?_toDigits n hn)
    · exact hdigits

theorem readDecimals_closing {rest : List Char} (hrest : Closing rest) :
    readDecimals rest = some (none, rest) := by
  unfold readDecimals
  split
  · rcases hrest '.' rfl with h | h | h <;> cases h
  · rfl

theorem readExponent_closing {rest : List Char} (hrest : Closing rest) :
    readExponent rest = some (none, rest) := by
  unfold readExponent
  split
  · rcases hrest 'e' rfl with h | h | h <;> cases h
  · rcases hrest 'E' rfl with h | h | h <;> cases h
  · rfl

theorem readUnsigned_toDigits (negative : Bool) (n : Nat) {rest : List Char}
    (hrest : Closing rest) :
    readUnsigned negative (Nat.toDigits 10 n ++ rest) =
      some (⟨negative, Nat.toDigits 10 n, none, none⟩, rest) := by
  simp [readUnsigned, readWhole_toDigits n hrest, readDecimals_closing hrest,
    readExponent_closing hrest]

theorem le_foldl_digits (ds : List Char) :
    ∀ n, n ≤ ds.foldl (fun n c => n * 10 + (c.toNat - 48)) n := by
  induction ds with
  | nil => exact fun n => Nat.le_refl n
  | cons c ds ih =>
    intro n
    have hnext : n ≤ n * 10 + (c.toNat - 48) := by omega
    exact Nat.le_trans hnext (ih _)

/-- Digits fit as long as what they make together fits. -/
theorem takeFitting_eq (ds : List Char) :
    ∀ n, ds.foldl (fun n c => n * 10 + (c.toNat - 48)) n < Nat.pow 2 64 →
      takeFitting n ds = (ds.foldl (fun n c => n * 10 + (c.toNat - 48)) n, []) := by
  induction ds with
  | nil => exact fun n _ => rfl
  | cons c ds ih =>
    intro n h
    rw [List.foldl_cons] at h ⊢
    have hnext := Nat.lt_of_le_of_lt (le_foldl_digits ds _) h
    rw [takeFitting, if_pos hnext, ih _ h]

/-- The number that is written with the digits of an integer. -/
theorem value_toDigits {negative : Bool} {n : Nat} (hn : n < Nat.pow 2 64) :
    Numeral.value ⟨negative, Nat.toDigits 10 n, none, none⟩ =
      if negative then
        if 0 < n ∧ n ≤ Nat.pow 2 63 then integer (-(n : Int)) else fraction
      else integer n := by
  have hfitting : takeFitting 0 (Nat.toDigits 10 n) = (n, []) := by
    have hvalue := digitsValue_toDigits n
    rw [digitsValue] at hvalue
    have h := takeFitting_eq (Nat.toDigits 10 n) 0 (by rw [hvalue]; exact hn)
    rw [hvalue] at h
    exact h
  unfold Numeral.value Numeral.isWhole Numeral.wholeValue Numeral.significand
    Numeral.fittingDigits Numeral.fittingWhole
  dsimp only
  rw [hfitting]
  rfl

/-! ### Strings -/

theorem hexValue_hexDigit : ∀ n < 16, hexValue (hexDigit n) = some n := by
  decide

/-- An escape of one character is read as its unit. -/
theorem readUnits_escaped {mark : Char} {unit : Nat} (h : escapedUnit mark = some unit)
    (cs : List Char) :
    readUnits ('\\' :: mark :: cs) = (readUnits cs).map fun r => (unit :: r.1, r.2) := by
  have hmark : mark ≠ 'u' := by
    rintro rfl
    cases h
  cases hrest : readUnits cs <;> simp [readUnits, hmark, h, hrest]

/-- A character is read from its escaped form as one unit. -/
theorem readUnits_escapeChar (c : Char) (cs : List Char) :
    readUnits (escapeChar c ++ cs) =
      (readUnits cs).map fun r => (c.toNat :: r.1, r.2) := by
  unfold escapeChar
  -- first the characters with a short escape of their own
  split
  · subst_vars
    exact readUnits_escaped rfl cs
  split
  · subst_vars
    exact readUnits_escaped rfl cs
  split
  · subst_vars
    exact readUnits_escaped rfl cs
  split
  · subst_vars
    exact readUnits_escaped rfl cs
  split
  · subst_vars
    exact readUnits_escaped rfl cs
  split
  · rename_i hbackspace
    rw [hbackspace]
    exact readUnits_escaped rfl cs
  split
  · rename_i hfeed
    rw [hfeed]
    exact readUnits_escaped rfl cs
  split
  · rename_i hlt
    -- two hexadecimal digits make up the character
    have hhigh := hexValue_hexDigit (c.toNat / 16) (by omega)
    have hlow := hexValue_hexDigit (c.toNat % 16) (by omega)
    have hzero : hexValue '0' = some 0 := by decide
    have hunit : hexUnit '0' '0' (hexDigit (c.toNat / 16)) (hexDigit (c.toNat % 16)) =
        some c.toNat := by
      simp only [hexUnit, hzero, hhigh, hlow, Option.bind_eq_bind, Option.bind_some,
        Option.pure_def]
      congr 1
      omega
    cases h : readUnits cs <;> simp [readUnits, hunit, h]
  · rename_i hbackslash _ _ _ _ _ hlt
    cases h : readUnits cs <;> simp [readUnits, hbackslash, hlt, h]

/-- The units of a string that is written in quotes. -/
theorem readUnits_quoted (cs rest : List Char) :
    readUnits (cs.flatMap escapeChar ++ '"' :: rest) = some (cs.map Char.toNat, rest) := by
  induction cs with
  | nil => rfl
  | cons c cs ih =>
    rw [List.flatMap_cons, List.append_assoc, readUnits_escapeChar, ih]
    rfl

/-- No character is half of a surrogate pair. -/
theorem not_isSurrogate (c : Char) :
    isHighSurrogate c.toNat = false ∧ isLowSurrogate c.toNat = false := by
  have hvalid : c.toNat < 0xD800 ∨ 0xDFFF < c.toNat ∧ c.toNat < 0x110000 := c.valid
  simp only [isHighSurrogate, isLowSurrogate, Bool.and_eq_false_iff, decide_eq_false_iff_not]
  omega

theorem joinUnits_toNat (cs : List Char) : joinUnits (cs.map Char.toNat) = some cs := by
  induction cs with
  | nil => rfl
  | cons c cs ih =>
    obtain ⟨hhigh, hlow⟩ := not_isSurrogate c
    cases cs with
    | nil => simp [joinUnits, hhigh, hlow]
    | cons d ds =>
      rw [List.map_cons, List.map_cons] at *
      rw [joinUnits, hhigh, hlow, ih]
      simp

theorem textOfUnits_toNat (s : String) : textOfUnits (s.toList.map Char.toNat) = some s := by
  rw [textOfUnits, joinUnits_toNat, Option.map_some, String.ofList_toList]

theorem toList_quoted (s : String) (rest : List Char) :
    (quoted s).toList ++ rest = '"' :: (s.toList.flatMap escapeChar ++ '"' :: rest) := by
  simp [quoted]

/-! ### Numbers as values -/

/-- The text of an integer: a sign, if it is negative, and its digits. -/
theorem toList_toString (n : Int) :
    (toString n).toList =
      if 0 ≤ n then Nat.toDigits 10 n.toNat else '-' :: Nat.toDigits 10 (-n).toNat := by
  rw [Int.toString_eq_repr, Int.repr_eq_if]
  split
  · simp [Nat.repr]
  · simp [Nat.repr]

theorem readScalar_of_number {cs : List Char}
    (h : ∀ c ∈ cs.head?, c.isDigit = true ∨ c = '-') : readScalar cs = readNumber cs := by
  unfold readScalar
  split
  · rcases h 'n' rfl with h | h <;> cases h
  · rcases h 't' rfl with h | h <;> cases h
  · rcases h 'f' rfl with h | h <;> cases h
  · rfl

/-- The first digit of a number. -/
theorem exists_head_toDigits (n : Nat) :
    ∃ c cs, Nat.toDigits 10 n = c :: cs ∧ c.isDigit = true := by
  cases h : Nat.toDigits 10 n with
  | nil => exact absurd h Nat.toDigits_ne_nil
  | cons c cs =>
    refine ⟨c, cs, rfl, isDigit_of_mem_toDigits (n := n) ?_⟩
    rw [h]
    exact List.mem_cons_self

theorem readNumeral_toDigits (n : Nat) {rest : List Char} (hrest : Closing rest) :
    readNumeral (Nat.toDigits 10 n ++ rest) =
      some (⟨false, Nat.toDigits 10 n, none, none⟩, rest) := by
  obtain ⟨c, cs, heq, hc⟩ := exists_head_toDigits n
  have hunsigned := readUnsigned_toDigits false n hrest
  rw [heq] at hunsigned ⊢
  unfold readNumeral
  split
  · rename_i heq'
    cases heq'
    cases hc
  · exact hunsigned

/-- An integer that is kept is read from its text. -/
theorem readNumeral_toString {n : Int} (hn : isKept n = true) {rest : List Char}
    (hrest : Closing rest) :
    (readNumeral ((toString n).toList ++ rest)).map (fun r => (r.1.value, r.2)) =
      some (integer n, rest) := by
  have hbounds : -Int.pow 2 63 ≤ n ∧ n < Int.pow 2 64 := by simpa [isKept] using hn
  have hlow : (Int.pow 2 63 : Int) = 9223372036854775808 := rfl
  have hhigh : (Int.pow 2 64 : Int) = 18446744073709551616 := rfl
  have hhalf : Nat.pow 2 63 = 9223372036854775808 := rfl
  have hfull : Nat.pow 2 64 = 18446744073709551616 := rfl
  rw [toList_toString]
  split
  · rename_i hsign
    have hfits : n.toNat < Nat.pow 2 64 := by omega
    rw [readNumeral_toDigits _ hrest, Option.map_some, value_toDigits hfits, if_neg (by decide),
      Int.toNat_of_nonneg hsign]
  · rename_i hsign
    have hfits : (-n).toNat < Nat.pow 2 64 := by omega
    have hrange : 0 < (-n).toNat ∧ (-n).toNat ≤ Nat.pow 2 63 := by omega
    have hvalue : -((-n).toNat : Int) = n := by omega
    show ((readUnsigned true (Nat.toDigits 10 (-n).toNat ++ rest)).map _) = _
    rw [readUnsigned_toDigits true _ hrest, Option.map_some, value_toDigits hfits,
      if_pos rfl, if_pos hrange, hvalue]

/-! ### Values -/

mutual

/-- The value as it is read with room for so many levels of arrays and objects. -/
def pruned (room : Nat) : Json → Json
  | array items => nest room (array (prunedItems (room - 1) items))
  | object members => nest room (object (prunedMembers (room - 1) members))
  | value => value

/-- The items as they are read with this room. -/
def prunedItems (room : Nat) : List Json → List Json
  | [] => []
  | item :: items => pruned room item :: prunedItems room items

/-- The members as they are read with this room. -/
def prunedMembers (room : Nat) : List (String × Json) → List (String × Json)
  | [] => []
  | (name, value) :: members => (name, pruned room value) :: prunedMembers room members

end

theorem isSpace_eq_false_of_isDigit {c : Char} (h : c.isDigit = true) : isSpace c = false := by
  rw [← Bool.not_eq_true]
  intro hspace
  unfold isSpace at hspace
  simp only [Bool.or_eq_true, beq_iff_eq] at hspace
  rcases hspace with ((rfl | rfl) | rfl) | rfl <;> cases h

/-- The text of a value starts with a character that stands for itself and closes nothing. -/
theorem exists_head_compact (v : Json) :
    ∃ c cs, v.compact.toList = c :: cs ∧ isSpace c = false ∧ c ≠ ']' := by
  cases v with
  | null => exact ⟨'n', _, rfl, rfl, by decide⟩
  | bool b => cases b <;> exact ⟨_, _, rfl, rfl, by decide⟩
  | integer n =>
    rw [compact, toList_toString]
    split
    · obtain ⟨c, cs, heq, hc⟩ := exists_head_toDigits n.toNat
      refine ⟨c, cs, heq, isSpace_eq_false_of_isDigit hc, ?_⟩
      rintro rfl
      cases hc
    · exact ⟨'-', _, rfl, rfl, by decide⟩
  | fraction => exact ⟨'n', _, rfl, rfl, by decide⟩
  | string s =>
    rw [compact]
    exact ⟨'"', _, by simpa using toList_quoted s [], rfl, by decide⟩
  | array items =>
    rw [compact]
    exact ⟨'[', (compactItems "" items).toList ++ [']'], by simp, rfl, by decide⟩
  | object members =>
    rw [compact]
    exact ⟨'\x7b', (compactMembers "" members).toList ++ ['\x7d'], by simp, rfl, by decide⟩
  | unreadable => exact ⟨'n', _, rfl, rfl, by decide⟩

theorem skipSpace_of_head {c : Char} {cs : List Char} (h : isSpace c = false) :
    skipSpace (c :: cs) = c :: cs :=
  List.dropWhile_cons_of_neg (by simp [h])

theorem skipSpace_compact (v : Json) (rest : List Char) :
    skipSpace (v.compact.toList ++ rest) = v.compact.toList ++ rest := by
  obtain ⟨c, cs, heq, hspace, -⟩ := exists_head_compact v
  rw [heq, List.cons_append, skipSpace_of_head hspace]

/-- Nothing closes an array or object where a value starts. -/
theorem compact_ne_bracket (v : Json) (tail rest : List Char) :
    v.compact.toList ++ tail ≠ ']' :: rest := by
  obtain ⟨c, cs, heq, -, hne⟩ := exists_head_compact v
  rw [heq, List.cons_append]
  intro h
  exact hne (List.cons.inj h).1

theorem toList_compactItems (item : Json) (items : List Json) (rest : List Char) :
    (compactItems "" (item :: items)).toList ++ rest =
      item.compact.toList ++ ((compactItems "," items).toList ++ rest) := by
  simp [compactItems]

theorem toList_compactMembers (name : String) (value : Json) (members : List (String × Json))
    (rest : List Char) :
    (compactMembers "" ((name, value) :: members)).toList ++ rest =
      '"' :: (name.toList.flatMap escapeChar ++ '"' :: ':' ::
        (value.compact.toList ++ ((compactMembers "," members).toList ++ rest))) := by
  simp [compactMembers, quoted]

theorem objectOf_some (members : List (String × Json)) :
    objectOf (members.map fun m => (some m.1, m.2)) = object members := by
  have hnames : (members.map fun m => (some m.1, m.2)).mapM
      (fun m : Option String × Json => m.1.map (·, m.2)) = some members := by
    induction members with
    | nil => rfl
    | cons m members ih => simp [ih]
  rw [objectOf, hnames]

theorem compactItems_comma (item : Json) (items : List Json) :
    (compactItems "," (item :: items)).toList =
      ',' :: (compactItems "" (item :: items)).toList := by
  simp [compactItems]

theorem compactMembers_comma (member : String × Json) (members : List (String × Json)) :
    (compactMembers "," (member :: members)).toList =
      ',' :: (compactMembers "" (member :: members)).toList := by
  simp [compactMembers]

/-- After an item of an array its rest or its closing mark follows. -/
theorem closing_items (items : List Json) (rest : List Char) :
    Closing ((compactItems "," items).toList ++ ']' :: rest) := by
  cases items with
  | nil => exact fun c hc => .inr (.inl (Option.some.inj hc).symm)
  | cons item items =>
    rw [compactItems_comma]
    exact fun c hc => .inl (Option.some.inj hc).symm

theorem closing_members (members : List (String × Json)) (rest : List Char) :
    Closing ((compactMembers "," members).toList ++ '\x7d' :: rest) := by
  cases members with
  | nil => exact fun c hc => .inr (.inr (Option.some.inj hc).symm)
  | cons member members =>
    rw [compactMembers_comma]
    exact fun c hc => .inl (Option.some.inj hc).symm

theorem Closing.skipSpace_eq {cs : List Char} (h : Closing cs) : skipSpace cs = cs := by
  cases cs with
  | nil => rfl
  | cons c cs =>
    refine skipSpace_of_head ?_
    rcases h c rfl with rfl | rfl | rfl
    · rfl
    · rfl
    · rfl

theorem valueStep_integer (room : Nat) {n : Int} (hn : isKept n = true) {rest : List Char}
    (hrest : Closing rest) :
    valueStep room ((toString n).toList ++ rest) = some (integer n, rest) := by
  obtain ⟨c, cs, heq, hc⟩ : ∃ c cs, (toString n).toList = c :: cs ∧
      (c.isDigit = true ∨ c = '-') := by
    rw [toList_toString]
    split
    · obtain ⟨c, cs, heq, hc⟩ := exists_head_toDigits n.toNat
      exact ⟨c, cs, heq, .inl hc⟩
    · exact ⟨'-', _, rfl, .inr rfl⟩
  have hnumeral := readNumeral_toString hn hrest
  rw [heq, List.cons_append] at hnumeral ⊢
  -- neither a digit nor a sign opens a string, an array or an object
  have hne : ∀ d, d.isDigit = false → d ≠ '-' → ∀ ds, c :: (cs ++ rest) ≠ d :: ds := by
    rintro d hd hsign ds h
    rw [← (List.cons.inj h).1] at hd hsign
    rcases hc with hc | hc
    · rw [hd] at hc
      cases hc
    · exact hsign hc
  rw [valueStep_of_ne (hne '"' rfl (by decide)) (hne '[' rfl (by decide))
    (hne '\x7b' rfl (by decide)), readScalar_of_number, read?_readNumber, hnumeral]
  rintro _ ⟨⟩
  exact hc

mutual

/-- An exact value is read from its compact text, pruned to the room there is. -/
theorem read?_compact : ∀ (v : Json) (room : Nat) (rest : List Char), v.isExact = true →
    Closing rest →
      read? (readValue room (v.compact.toList ++ rest)) = some (v.pruned room, rest)
  | .null, room, rest, _, _ => by
    rw [read?_readValue, skipSpace_compact]
    rfl
  | .bool b, room, rest, _, _ => by
    rw [read?_readValue, skipSpace_compact]
    cases b <;> rfl
  | .integer n, room, rest, hv, hrest => by
    rw [read?_readValue, skipSpace_compact, compact]
    exact valueStep_integer room hv hrest
  | .fraction, room, rest, hv, _ => by cases hv
  | .unreadable, room, rest, hv, _ => by cases hv
  | .string s, room, rest, _, _ => by
    rw [read?_readValue, skipSpace_compact, compact, toList_quoted]
    show ((readUnits _).map fun r => (stringOf r.1, r.2)) = _
    rw [readUnits_quoted, Option.map_some, stringOf, textOfUnits_toNat]
    rfl
  | .array items, room, rest, hv, hrest => by
    have hitems := allItems_of_all hv
    have htext : (array items).compact.toList ++ rest =
        '[' :: ((compactItems "" items).toList ++ ']' :: rest) := by
      simp [compact]
    rw [read?_readValue, skipSpace_compact, htext]
    show bracketed ']' _ _ _ = _
    by_cases hne : items = []
    · subst hne
      rfl
    -- the first item does not start with the closing mark
    · have hread := read?_compactItems items (room - 1) rest hne hitems
      obtain ⟨item, items, rfl⟩ := List.exists_cons_of_ne_nil hne
      rw [hread, toList_compactItems, skipSpace_compact, bracketed_of_ne (compact_ne_bracket _ _)]
      rfl
  | .object members, room, rest, hv, hrest => by
    have hmembers := allMembers_of_all hv
    have htext : (object members).compact.toList ++ rest =
        '\x7b' :: ((compactMembers "" members).toList ++ '\x7d' :: rest) := by
      simp [compact]
    rw [read?_readValue, skipSpace_compact, htext]
    show bracketed '\x7d' _ _ _ = _
    by_cases hne : members = []
    · subst hne
      rfl
    · have hread := read?_compactMembers members (room - 1) rest hne hmembers
      obtain ⟨⟨name, value⟩, members, rfl⟩ := List.exists_cons_of_ne_nil hne
      rw [hread, toList_compactMembers, skipSpace_of_head rfl,
        bracketed_of_ne (by simp), Option.map_some, objectOf_some]
      rfl

/-- The items of an array are read one by one. -/
theorem read?_compactItems : ∀ (items : List Json) (room : Nat) (rest : List Char), items ≠ [] →
    allItems isFaithful items = true →
      read? (readItems room ((compactItems "" items).toList ++ ']' :: rest)) =
        some (prunedItems room items, rest)
  | [], _, _, hne, _ => absurd rfl hne
  | item :: items, room, rest, _, hv => by
    obtain ⟨hitem, hitems⟩ := Bool.and_eq_true_iff.1 hv
    have hclosing := closing_items items rest
    rw [toList_compactItems, read?_readItems, read?_compact item room _ hitem hclosing,
      Option.bind_some, hclosing.skipSpace_eq]
    cases items with
    | nil => rfl
    | cons next items =>
      rw [compactItems_comma]
      show ((read? (readItems room ((compactItems "" (next :: items)).toList ++ ']' :: rest))).map
        fun r => (item.pruned room :: r.1, r.2)) = _
      rw [read?_compactItems (next :: items) room rest (List.cons_ne_nil _ _) hitems]
      rfl

/-- The members of an object are read one by one. -/
theorem read?_compactMembers : ∀ (members : List (String × Json)) (room : Nat) (rest : List Char),
    members ≠ [] → allMembers isFaithful members = true →
      read? (readMembers room ((compactMembers "" members).toList ++ '\x7d' :: rest)) =
        some ((prunedMembers room members).map fun m => (some m.1, m.2), rest)
  | [], _, _, hne, _ => absurd rfl hne
  | (name, value) :: members, room, rest, _, hv => by
    obtain ⟨hvalue, hmembers⟩ := Bool.and_eq_true_iff.1 hv
    have hclosing := closing_members members rest
    -- first the name in quotes, then the value up to what closes it
    rw [toList_compactMembers, read?_readMembers]
    show (readUnits _).bind _ = _
    rw [readUnits_quoted, Option.bind_some]
    show (read? (readValue room _)).bind _ = _
    rw [read?_compact value room _ hvalue hclosing, Option.bind_some, hclosing.skipSpace_eq,
      textOfUnits_toNat]
    cases members with
    | nil => rfl
    | cons next members =>
      rw [compactMembers_comma]
      show ((read? (readMembers room
        ((compactMembers "" (next :: members)).toList ++ '\x7d' :: rest))).map
          fun r => ((some name, value.pruned room) :: r.1, r.2)) = _
      rw [read?_compactMembers (next :: members) room rest (List.cons_ne_nil _ _) hmembers]
      rfl

end

/-- An exact value is read from its compact text, down to the depth that is admitted. -/
theorem read_compact {v : Json} (hv : v.isExact = true) :
    read v.compact = some (v.pruned maxDepth) := by
  have h := read?_compact v maxDepth [] hv (by nofun)
  rw [List.append_nil] at h
  obtain ⟨⟨_, _⟩, hr, heq⟩ := Option.map_eq_some_iff.1 h
  cases heq
  rw [read, hr]
  rfl

/-! ### Depth -/

mutual

/-- How deep arrays and objects are nested. -/
def depth : Json → Nat
  | array items => depthOfItems items + 1
  | object members => depthOfMembers members + 1
  | _ => 0

/-- The greatest depth of the items. -/
def depthOfItems : List Json → Nat
  | [] => 0
  | item :: items => max (depth item) (depthOfItems items)

/-- The greatest depth of the members' values. -/
def depthOfMembers : List (String × Json) → Nat
  | [] => 0
  | (_, value) :: members => max (depth value) (depthOfMembers members)

end

theorem nest_of_pos {room : Nat} (h : 0 < room) (v : Json) : nest room v = v :=
  if_neg (Nat.ne_of_gt h)

mutual

/-- A value that is not nested more deeply than there is room is left as it is. -/
theorem pruned_of_depth_le : ∀ (v : Json) (room : Nat), v.depth ≤ room → v.pruned room = v
  | .null, _, _ | .bool _, _, _ | .integer _, _, _ | .fraction, _, _ | .string _, _, _
  | .unreadable, _, _ => rfl
  | .array items, room, h => by
    rw [depth] at h
    rw [pruned, nest_of_pos (by omega), prunedItems_of_depth_le items _ (by omega)]
  | .object members, room, h => by
    rw [depth] at h
    rw [pruned, nest_of_pos (by omega), prunedMembers_of_depth_le members _ (by omega)]

theorem prunedItems_of_depth_le : ∀ (items : List Json) (room : Nat),
    depthOfItems items ≤ room → prunedItems room items = items
  | [], _, _ => rfl
  | item :: items, room, h => by
    rw [depthOfItems] at h
    rw [prunedItems, pruned_of_depth_le item room (by omega),
      prunedItems_of_depth_le items room (by omega)]

theorem prunedMembers_of_depth_le : ∀ (members : List (String × Json)) (room : Nat),
    depthOfMembers members ≤ room → prunedMembers room members = members
  | [], _, _ => rfl
  | (name, value) :: members, room, h => by
    rw [depthOfMembers] at h
    rw [prunedMembers, pruned_of_depth_le value room (by omega),
      prunedMembers_of_depth_le members room (by omega)]

end

mutual

/-- A value that is nested more deeply loses its meaning somewhere. -/
theorem isReadable_pruned : ∀ (v : Json) (room : Nat), room < v.depth →
    (v.pruned room).isReadable = false
  | .null, _, h | .bool _, _, h | .integer _, _, h | .fraction, _, h | .string _, _, h
  | .unreadable, _, h => by cases h
  | .array items, room, h => by
    rw [depth] at h
    rcases Nat.eq_zero_or_pos room with rfl | hroom
    · rfl
    · rw [pruned, nest_of_pos hroom]
      exact areReadable_pruned items _ (by omega)
  | .object members, room, h => by
    rw [depth] at h
    rcases Nat.eq_zero_or_pos room with rfl | hroom
    · rfl
    · rw [pruned, nest_of_pos hroom]
      exact areMembersReadable_pruned members _ (by omega)

theorem areReadable_pruned : ∀ (items : List Json) (room : Nat), room < depthOfItems items →
    areReadable (prunedItems room items) = false
  | [], _, h => by cases h
  | item :: items, room, h => by
    rw [depthOfItems] at h
    rw [prunedItems, areReadable, Bool.and_eq_false_iff]
    rcases Nat.lt_or_ge room item.depth with hitem | hitem
    · exact .inl (isReadable_pruned item room hitem)
    · exact .inr (areReadable_pruned items room (by omega))

theorem areMembersReadable_pruned : ∀ (members : List (String × Json)) (room : Nat),
    room < depthOfMembers members → areMembersReadable (prunedMembers room members) = false
  | [], _, h => by cases h
  | (name, value) :: members, room, h => by
    rw [depthOfMembers] at h
    rw [prunedMembers, areMembersReadable, Bool.and_eq_false_iff]
    rcases Nat.lt_or_ge room value.depth with hvalue | hvalue
    · exact .inl (isReadable_pruned value room hvalue)
    · exact .inr (areMembersReadable_pruned members room (by omega))

end

end ModelForge.Json
