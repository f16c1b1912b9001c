/-
Numbers in JSON documents.

A number is read digit by digit as a `Numeral`, and `Numeral.value` is what it says: an
integer between `-2 ^ 63` and `2 ^ 64 - 1` written with digits only is kept, other numbers
are fractions.

A fraction beyond the range of double precision has no value. It is told by the
multiplication that would make it: the digits that fit into 64 bits are the significand, all
other digits count at most as places, and significand and power of ten are rounded to double
precision before they are multiplied.

* `takeFitting` — the digits that fit, `Numeral.significand` and `Numeral.places` the number
  in this form;
* `roundDouble` — rounding to 53 bits, `isInfinite` whether the product is out of range;
* `length_lt_of_readNumeral` — reading a number leaves a shorter rest.
-/
import ModelForge.Json

namespace ModelForge.Json

/-! ### Reading -/

/-- The parts of a number as it is written. -/
structure Numeral where
  negative : Bool
  whole : List Char
  /-- the digits after the point, if there is one -/
  decimals : Option (List Char)
  /-- the sign and the digits of the exponent, if there is one -/
  exponent : Option (Bool × List Char)
deriving Repr

/-- The number that a list of decimal digits denotes. -/
def digitsValue (ds : List Char) : Nat :=
  ds.foldl (fun n c => n * 10 + (c.toNat - 48)) 0

/-- Reads the digits that come next, at least one. -/
def readDigits (cs : List Char) : Option (List Char × List Char) :=
  if (cs.takeWhile Char.isDigit).isEmpty then none
  else some (cs.takeWhile Char.isDigit, cs.dropWhile Char.isDigit)

/-- Reads the digits in front of the point: a zero stands alone. -/
def readWhole : List Char → Option (List Char × List Char)
  | '0' :: c :: rest => if c.isDigit then none else some (['0'], c :: rest)
  | cs => readDigits cs

/-- Reads the point and the digits after it, if there is a point. -/
def readDecimals : List Char → Option (Option (List Char) × List Char)
  | '.' :: rest => (readDigits rest).map fun r => (some r.1, r.2)
  | cs => some (none, cs)

/-- Reads the digits of an exponent and the sign in front of them. -/
def readSignedDigits : List Char → Option ((Bool × List Char) × List Char)
  | '-' :: rest => (readDigits rest).map fun r => ((true, r.1), r.2)
  | '+' :: rest => (readDigits rest).map fun r => ((false, r.1), r.2)
  | cs => (readDigits cs).map fun r => ((false, r.1), r.2)

/-- Reads the exponent, if there is one. -/
def readExponent : List Char → Option (Option (Bool × List Char) × List Char)
  | 'e' :: rest => (readSignedDigits rest).map fun r => (some r.1, r.2)
  | 'E' :: rest => (readSignedDigits rest).map fun r => (some r.1, r.2)
  | cs => some (none, cs)

/-- Reads a number after its sign. -/
def readUnsigned (negative : Bool) (cs : List Char) : Option (Numeral × List Char) := do
  let (whole, cs₁) ← readWhole cs
  let (decimals, cs₂) ← readDecimals cs₁
  let (exponent, cs₃) ← readExponent cs₂
  return (⟨negative, whole, decimals, exponent⟩, cs₃)

/-- Reads a number. -/
def readNumeral : List Char → Option (Numeral × List Char)
  | '-' :: rest => readUnsigned true rest
  | cs => readUnsigned false cs

theorem length_lt_of_readDigits {cs ds rest : List Char} (h : readDigits cs = some (ds, rest)) :
    rest.length < cs.length := by
  unfold readDigits at h
  split at h
  · cases h
  · rename_i hne
    cases h
    have h₁ := congrArg List.length (List.takeWhile_append_dropWhile (p := Char.isDigit) (l := cs))
    have h₂ : 0 < (cs.takeWhile Char.isDigit).length := by
      cases hw : cs.takeWhile Char.isDigit with
      | nil => simp [hw] at hne
      | cons c w => simp
    simp only [List.length_append] at h₁
    omega

theorem length_lt_of_readWhole {cs ds rest : List Char} (h : readWhole cs = some (ds, rest)) :
    rest.length < cs.length := by
  unfold readWhole at h
  split at h
  · split at h
    · cases h
    · cases h
      simp
  · exact length_lt_of_readDigits h

theorem length_le_of_readDecimals {cs rest : List Char} {ds : Option (List Char)}
    (h : readDecimals cs = some (ds, rest)) : rest.length ≤ cs.length := by
  unfold readDecimals at h
  split at h
  · obtain ⟨⟨ds', rest'⟩, h₁, h₂⟩ := Option.map_eq_some_iff.1 h
    cases h₂
    have := length_lt_of_readDigits h₁
    simp only [List.length_cons]
    omega
  · cases h
    exact Nat.le_refl _

theorem length_lt_of_readSignedDigits {cs rest : List Char} {ds : Bool × List Char}
    (h : readSignedDigits cs = some (ds, rest)) : rest.length < cs.length := by
  unfold readSignedDigits at h
  split at h <;>
  · obtain ⟨⟨ds', rest'⟩, h₁, h₂⟩ := Option.map_eq_some_iff.1 h
    cases h₂
    have := length_lt_of_readDigits h₁
    try simp only [List.length_cons]
    omega

theorem length_le_of_readExponent {cs rest : List Char} {ds : Option (Bool × List Char)}
    (h : readExponent cs = some (ds, rest)) : rest.length ≤ cs.length := by
  unfold readExponent at h
  split at h
  · obtain ⟨⟨ds', rest'⟩, h₁, h₂⟩ := Option.map_eq_some_iff.1 h
    cases h₂
    have := length_lt_of_readSignedDigits h₁
    simp only [List.length_cons]
    omega
  · obtain ⟨⟨ds', rest'⟩, h₁, h₂⟩ := Option.map_eq_some_iff.1 h
    cases h₂
    have := length_lt_of_readSignedDigits h₁
    simp only [List.length_cons]
    omega
  · cases h
    exact Nat.le_refl _

theorem length_lt_of_readUnsigned {negative : Bool} {cs rest : List Char} {n : Numeral}
    (h : readUnsigned negative cs = some (n, rest)) : rest.length < cs.length := by
  simp only [readUnsigned, Option.bind_eq_bind, Option.bind_eq_some_iff, Option.pure_def] at h
  obtain ⟨⟨w, cs₁⟩, h₁, ⟨d, cs₂⟩, h₂, ⟨e, cs₃⟩, h₃, h₄⟩ := h
  cases h₄
  have : cs₁.length < cs.length := length_lt_of_readWhole h₁
  have : cs₂.length ≤ cs₁.length := length_le_of_readDecimals h₂
  have : cs₃.length ≤ cs₂.length := length_le_of_readExponent h₃
  show cs₃.length < cs.length
  omega

theorem length_lt_of_readNumeral {cs rest : List Char} {n : Numeral}
    (h : readNumeral cs = some (n, rest)) : rest.length < cs.length := by
  unfold readNumeral at h
  split at h
  · have := length_lt_of_readUnsigned h
    simp only [List.length_cons]
    omega
  · exact length_lt_of_readUnsigned h

/-! ### Range -/

/-- The multiple of `unit` nearest to `n`; of two equally near ones the even multiple. -/
def roundTo (unit n : Nat) : Nat :=
  let multiple := n / unit
  let twice := 2 * (n % unit)
  if twice < unit ∨ (twice = unit ∧ multiple % 2 = 0) then multiple * unit
  else (multiple + 1) * unit

/-- The nearest number of 53 significant bits. -/
def roundDouble (n : Nat) : Nat :=
  roundTo (Nat.pow 2 (n.log2 - 52)) n

/-- The least number that rounds to no finite double-precision number. -/
def doubleBound : Nat := Nat.pow 2 1024 - Nat.pow 2 970

/-- The largest power of ten that is multiplied with. -/
def maxPlaces : Nat := 308

/-- Whether a significand times a power of ten is out of range. -/
def isInfinite (significand : Nat) (places : Int) : Bool :=
  if significand = 0 ∨ places < 0 then false
  else if places > maxPlaces then true
  else doubleBound ≤ roundDouble significand * roundDouble (Nat.pow 10 places.toNat)

/-- Appends digits to a significand as long as it has 64 bits. Returns the digits that are
left. -/
def takeFitting (significand : Nat) : List Char → Nat × List Char
  | [] => (significand, [])
  | c :: cs =>
    let next := significand * 10 + (c.toNat - 48)
    if next < Nat.pow 2 64 then takeFitting next cs else (significand, c :: cs)

namespace Numeral

/-- The written exponent as a number. -/
def exponentValue (n : Numeral) : Int :=
  match n.exponent with
  | none => 0
  | some (true, ds) => - (digitsValue ds : Int)
  | some (false, ds) => digitsValue ds

/-- The digits in front of the point that fit, and those that do not. -/
def fittingWhole (n : Numeral) : Nat × List Char :=
  takeFitting 0 n.whole

/-- The digits that fit, and those after the point that do not. -/
def fittingDigits (n : Numeral) : Nat × List Char :=
  takeFitting n.fittingWhole.1 (n.decimals.getD [])

/-- The significand of a number. -/
def significand (n : Numeral) : Nat :=
  n.fittingDigits.1

/-- The power of ten that belongs to the significand: digits left over in front of the point
count as places, those after it are dropped. -/
def places (n : Numeral) : Int :=
  let appended := (n.decimals.getD []).length - n.fittingDigits.2.length
  n.exponentValue + n.fittingWhole.2.length - appended

/-- Whether the number is written with digits only and these are not too many. -/
def isWhole (n : Numeral) : Bool :=
  n.decimals.isNone && n.exponent.isNone && n.fittingWhole.2.isEmpty

/-- The value of digits alone. A negative zero is no integer. -/
def wholeValue (n : Numeral) : Json :=
  if n.negative then
    if 0 < n.significand ∧ n.significand ≤ Nat.pow 2 63 then integer (- (n.significand : Int))
    else fraction
  else integer n.significand

/-- The value of a number. -/
def value (n : Numeral) : Json :=
  if n.isWhole then n.wholeValue
  else if isInfinite n.significand n.places then unreadable
  else fraction

end Numeral

end ModelForge.Json
