/-
Names that are derived from other names.

The variant of a property is called like the property, with the first character in upper case, and
the local with its result is called the same with a `v` in front.  Upper-case forms are read off
from tables.  What matters here is which characters of the ASCII range they can bring in:

* `Text.CapitalCode` — the capital letters of the ASCII range, and all that is beyond it;
* `Text.mem_capital` — an upper-case form has these characters only, apart from the character
  itself if it is no small letter;
* `mem_capitalized` — so no others come into a derived name;
* `capitalized_not_mem_keywords`, `resultName_not_mem_keywords` — and a derived name is never a
  keyword: keywords have small letters only (`small_of_mem_keywords`).
-/
import ModelForge.Kotlin.Printer
import ModelForge.Proofs.VariantNames

namespace ModelForge

open Kotlin

namespace Text

/-- The code of a capital letter of the ASCII range, or of a character beyond that range. -/
def CapitalCode (n : Nat) : Prop :=
  (65 ≤ n ∧ n ≤ 90) ∨ 128 ≤ n

/-- The code of a small letter of the ASCII range. -/
def SmallCode (n : Nat) : Prop :=
  97 ≤ n ∧ n ≤ 122

instance (n : Nat) : Decidable (CapitalCode n) :=
  inferInstanceAs (Decidable (_ ∨ _))

instance (n : Nat) : Decidable (SmallCode n) :=
  inferInstanceAs (Decidable (_ ∧ _))

theorem toUpper_of_lt : ∀ n < 128,
    ((Char.ofNat n).toUpper = Char.ofNat n ∧ ¬ SmallCode n) ∨
      CapitalCode (Char.ofNat n).toUpper.toNat := by
  decide +kernel

theorem capitalCode_of_mem_capitalExpansions :
    ∀ e ∈ capitalExpansions, ∀ n ∈ e.2, n < 0xD800 ∧ CapitalCode n := by
  decide +kernel

/-- Beyond the ASCII range, a run is shifted to characters beyond it, or it is one character that is
shifted to a letter. -/
theorem bounds_of_mem_capitalShifts : ∀ e ∈ capitalShifts, e.1.last < 128 ∨
    (e.1.first = e.1.last ∧ 65 ≤ e.1.first + e.2 ∧ e.1.last + e.2 ≤ 90) ∨
    (128 ≤ e.1.first + e.2 ∧ e.1.last + e.2 < 0xD800) ∨
    (0xDFFF < e.1.first + e.2 ∧ e.1.last + e.2 < 0x110000) := by
  decide +kernel

theorem toNat_ofNat_of_isValidChar {n : Nat} (h : n.isValidChar) : (Char.ofNat n).toNat = n := by
  rw [Char.ofNat, dif_pos h]
  rfl

theorem capitalCode_of_mem_wideCapital {c d : Char} (hc : 128 ≤ c.toNat)
    (h : d ∈ wideCapital c) : CapitalCode d.toNat := by
  unfold wideCapital at h
  split at h
  · -- a character with an entry of its own
    rename_i codes hcodes
    obtain ⟨earlier, later, heq, -⟩ := List.lookup_eq_some_iff.1 hcodes
    obtain ⟨n, hn, rfl⟩ := List.mem_map.1 h
    have hmem : (c.toNat, codes) ∈ capitalExpansions := by
      rw [heq]
      exact List.mem_append_right _ List.mem_cons_self
    obtain ⟨hvalid, hcode⟩ := capitalCode_of_mem_capitalExpansions _ hmem n hn
    rw [toNat_ofNat_of_isValidChar (.inl hvalid)]
    exact hcode
  · split at h
    · -- a character of a run that is shifted as a whole, so the bounds of the run settle it
      rename_i run shift hfind
      obtain rfl := List.mem_singleton.1 h
      have hrun : run.contains c.toNat = true :=
        List.find?_some (p := fun e : Run × Int => e.1.contains c.toNat) hfind
      simp only [Run.contains, Bool.and_eq_true, decide_eq_true_eq] at hrun
      have hbounds := bounds_of_mem_capitalShifts _ (List.mem_of_find?_eq_some hfind)
      dsimp only at hbounds
      have hvalid : (c.toNat + shift).toNat.isValidChar := by
        unfold Nat.isValidChar
        omega
      rw [toNat_ofNat_of_isValidChar hvalid]
      unfold CapitalCode
      omega
    · obtain rfl := List.mem_singleton.1 h
      exact .inr hc

/-- A character of an upper-case form is the character itself, if that is no small letter, or it is
a capital letter or beyond the ASCII range. -/
theorem mem_capital {c d : Char} (h : d ∈ capital c) :
    (d = c ∧ ¬ SmallCode c.toNat) ∨ CapitalCode d.toNat := by
  unfold capital at h
  split at h
  · rename_i hascii
    obtain rfl := List.mem_singleton.1 h
    have htable := toUpper_of_lt c.toNat hascii
    rw [Char.ofNat_toNat] at htable
    exact htable
  · rename_i hwide
    exact .inr (capitalCode_of_mem_wideCapital (Nat.le_of_not_lt hwide) h)

theorem not_smallCode_of_mem_capital {c d : Char} (h : d ∈ capital c) : ¬ SmallCode d.toNat := by
  rcases mem_capital h with ⟨rfl, hsmall⟩ | hcapital
  · exact hsmall
  · unfold CapitalCode at hcapital
    unfold SmallCode
    omega

end Text

/-- A character of a name in upper case is one of the name, or a capital letter or beyond the ASCII
range. -/
theorem mem_capitalized {name : String} {c : Char} (h : c ∈ (capitalized name).toList) :
    c ∈ name.toList ∨ Text.CapitalCode c.toNat := by
  cases hname : name.toList with
  | nil =>
    rw [capitalized, hname] at h
    cases h
  | cons first rest =>
    rw [capitalized_of_toList hname, String.toList_ofList, List.mem_append] at h
    rcases h with hfirst | hrest
    · rcases Text.mem_capital hfirst with ⟨rfl, -⟩ | hcapital
      · exact .inl List.mem_cons_self
      · exact .inr hcapital
    · exact .inl (List.mem_cons_of_mem _ hrest)

/-- A name in upper case has a character that is no small letter. -/
theorem exists_not_small_capitalized {name : String} (h : name ≠ "") :
    ∃ c ∈ (capitalized name).toList, ¬ Text.SmallCode c.toNat := by
  obtain ⟨first, rest, hname⟩ := List.exists_cons_of_ne_nil (mt String.toList_eq_nil_iff.1 h)
  obtain ⟨c, cs, hcapital⟩ := List.exists_cons_of_ne_nil (Text.capital_ne_nil first)
  have hc : c ∈ Text.capital first := by
    rw [hcapital]
    exact List.mem_cons_self
  refine ⟨c, ?_, Text.not_smallCode_of_mem_capital hc⟩
  rw [capitalized_of_toList hname, String.toList_ofList]
  exact List.mem_append_left _ hc

/-- Keywords are written with small letters. -/
theorem small_of_mem_keywords {k : String} (hk : k ∈ keywords) {c : Char} (hc : c ∈ k.toList) :
    Text.SmallCode c.toNat := by
  have hall : keywords.all fun k => k.toList.all fun c => decide (Text.SmallCode c.toNat) := by
    rfl
  exact of_decide_eq_true (List.all_eq_true.1 (List.all_eq_true.1 hall k hk) c hc)

/-- The name of a variant is no keyword. -/
theorem capitalized_not_mem_keywords (name : String) : capitalized name ∉ keywords := by
  intro hkeyword
  by_cases h : name = ""
  · subst h
    exact absurd hkeyword (by decide)
  · obtain ⟨c, hc, hsmall⟩ := exists_not_small_capitalized h
    exact hsmall (small_of_mem_keywords hkeyword hc)

/-- The name of a local is no keyword. -/
theorem resultName_not_mem_keywords (name : String) : resultName name ∉ keywords := by
  intro hkeyword
  by_cases h : name = ""
  · subst h
    exact absurd hkeyword (by decide)
  · obtain ⟨c, hc, hsmall⟩ := exists_not_small_capitalized h
    refine hsmall (small_of_mem_keywords hkeyword ?_)
    rw [resultName, String.toList_append]
    exact List.mem_append_right _ hc

end ModelForge
