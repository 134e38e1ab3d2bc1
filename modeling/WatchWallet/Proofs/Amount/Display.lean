import Mathlib.Algebra.Order.Field.Rat
import Mathlib.Tactic.FieldSimp
import Mathlib.Tactic.NormNum
import WatchWallet.Amount.Display
import WatchWallet.Proofs.Text.Digits

/-!
# Amount — Display

What is shown for an amount is the amount over a power of ten, exactly (`Amount.decimal_display`), with a
whole part without superfluous zeros and as many places as were asked for (`Amount.hasPlaces_display`), but
never more than 77.
-/

namespace WatchWallet

/-! ### Decimal numbers -/

namespace Text

/-- What stands in front of the point. -/
def whole (cs : List Char) : List Char :=
  cs.takeWhile (· != '.')

/-- What stands behind the point. -/
def fraction (cs : List Char) : List Char :=
  cs.drop ((whole cs).length + 1)

/-- The number that digits with at most one point among them stand for. -/
def decimal (cs : List Char) : ℚ :=
  value (whole cs) + value (fraction cs) / 10 ^ (fraction cs).length

/-- A whole part without superfluous zeros and, if there are places, a point and that many digits. -/
structure HasPlaces (places : Nat) (cs : List Char) : Prop where
  canonical : Canonical (whole cs)
  isDigit : ∀ c ∈ fraction cs, isDigit c = true
  length : (fraction cs).length = places
  point : cs = whole cs ++ if places = 0 then [] else '.' :: fraction cs

variable {ds : List Char}

theorem whole_append (hds : ∀ c ∈ ds, isDigit c = true) (rest : List Char) :
    whole (ds ++ rest) = ds ++ whole rest := by
  refine List.takeWhile_append_of_pos fun c hc => bne_iff_ne.2 ?_
  rintro rfl
  cases hds _ hc

theorem whole_run (hds : ∀ c ∈ ds, isDigit c = true) : whole ds = ds := by
  have happend := whole_append hds []
  rwa [List.append_nil, show whole [] = [] from rfl, List.append_nil] at happend

theorem fraction_run (hds : ∀ c ∈ ds, isDigit c = true) : fraction ds = [] := by
  rw [fraction, whole_run hds]
  exact List.drop_eq_nil_of_le (Nat.le_succ _)

theorem whole_point (hds : ∀ c ∈ ds, isDigit c = true) (fs : List Char) :
    whole (ds ++ '.' :: fs) = ds := by
  rw [whole_append hds, show whole ('.' :: fs) = [] from rfl, List.append_nil]

theorem fraction_point (hds : ∀ c ∈ ds, isDigit c = true) (fs : List Char) :
    fraction (ds ++ '.' :: fs) = fs := by
  rw [fraction, whole_point hds, List.drop_append, Nat.add_sub_cancel_left,
    List.drop_eq_nil_of_le (Nat.le_succ _)]
  rfl

end Text

/-! ### Amounts -/

namespace Amount

open Text

/-- The powers of ten that are amounts are those that the places may reach. -/
theorem pow_lt_size_iff {places : Nat} : Nat.pow 10 places < size ↔ places ≤ maxPlaces := by
  have hlast : Nat.pow 10 maxPlaces < size := by decide +kernel
  have hnext : size < Nat.pow 10 (maxPlaces + 1) := by decide +kernel
  constructor
  · intro hlt
    by_contra hmore
    exact Nat.lt_asymm hlt (Nat.lt_of_lt_of_le hnext (Nat.pow_le_pow_right (by decide) (by omega)))
  · intro hle
    exact Nat.lt_of_le_of_lt (Nat.pow_le_pow_right (by decide) hle) hlast

/-- What is shown is the whole part and, if there are places, a point and the remainder. -/
theorem toList_display (a : Amount) (decimals : Nat) : (a.display decimals).toList =
    if min decimals maxPlaces = 0 then digits a.val
    else digits (a.val / Nat.pow 10 (min decimals maxPlaces)) ++ '.' ::
      padLeft (min decimals maxPlaces) (digits (a.val % Nat.pow 10 (min decimals maxPlaces))) := by
  rw [display]
  split
  · exact String.toList_ofList
  · exact String.toList_ofList

/-- **An amount is shown in the form that was asked for**, with 77 places at most. -/
theorem hasPlaces_display (a : Amount) (decimals : Nat) :
    HasPlaces (min decimals maxPlaces) (a.display decimals).toList := by
  rw [toList_display]
  generalize min decimals maxPlaces = places
  split
  · rename_i hzero
    have hwhole := whole_run (canonical_digits a.val).isDigit
    have hfraction := fraction_run (canonical_digits a.val).isDigit
    constructor
    · rw [hwhole]
      exact canonical_digits a.val
    · rw [hfraction]
      exact fun c hc => absurd hc List.not_mem_nil
    · rw [hfraction, hzero]
      rfl
    · rw [hwhole, if_pos hzero, List.append_nil]
  · rename_i hpos
    have hdigits := (canonical_digits (a.val / Nat.pow 10 places)).isDigit
    have hlt : a.val % Nat.pow 10 places < Nat.pow 10 places := Nat.mod_lt _ (Nat.pow_pos (by decide))
    have hwhole := whole_point hdigits (padLeft places (digits (a.val % Nat.pow 10 places)))
    have hfraction := fraction_point hdigits (padLeft places (digits (a.val % Nat.pow 10 places)))
    constructor
    · rw [hwhole]
      exact canonical_digits _
    · rw [hfraction]
      exact fun c => isDigit_of_mem_padLeft
    · rw [hfraction, length_padLeft_digits (Nat.pos_of_ne_zero hpos) hlt]
    · rw [hwhole, hfraction, if_neg hpos]

/-- **The number shown is exact.** -/
theorem decimal_display (a : Amount) (decimals : Nat) :
    decimal (a.display decimals).toList = a.val / 10 ^ min decimals maxPlaces := by
  have hlength := (hasPlaces_display a decimals).length
  rw [decimal, hlength, toList_display]
  generalize min decimals maxPlaces = places
  split
  · rename_i hzero
    have hdigits := (canonical_digits a.val).isDigit
    rw [whole_run hdigits, fraction_run hdigits, value_digits, value_nil, hzero]
    norm_num
  · have hdigits := (canonical_digits (a.val / Nat.pow 10 places)).isDigit
    have hsplit : (a.val : ℚ) =
        10 ^ places * (a.val / Nat.pow 10 places : ℕ) + (a.val % Nat.pow 10 places : ℕ) := by
      exact_mod_cast (Nat.div_add_mod a.val (Nat.pow 10 places)).symm
    rw [whole_point hdigits, fraction_point hdigits, value_digits, value_padLeft_digits, hsplit]
    field_simp

/-- **Amounts are shown exactly**, with 77 places at most: those whose power of ten is an amount are all
shown.  The whole part has no superfluous zeros, behind the point stand as many digits as there are places,
and the number is the amount over the power of ten; so different amounts never look alike. -/
theorem display_exact (a : Amount) (decimals : Nat) :
    let places := min decimals maxPlaces
    (places = decimals ↔ Nat.pow 10 decimals < size) ∧
    HasPlaces places (a.display decimals).toList ∧
    decimal (a.display decimals).toList = a.val / 10 ^ places ∧
    ∀ b : Amount, b.display decimals = a.display decimals → b = a := by
  intro places
  refine ⟨?_, hasPlaces_display a decimals, decimal_display a decimals, fun b hsame => ?_⟩
  · rw [pow_lt_size_iff]
    exact min_eq_left_iff
  · have hnumber : (b.val / 10 ^ places : ℚ) = a.val / 10 ^ places := by
      rw [← decimal_display, hsame, decimal_display]
    have hval : (b.val : ℚ) = a.val := (div_left_inj' (by positivity)).1 hnumber
    exact Amount.ext (by exact_mod_cast hval)

example : (ofUInt64 150000000).display 8 = "1.50000000" := by decide

/-- With 78 places the smallest amount is shown ten times as large as it is, with one place less. -/
theorem display_tenfold :
    let one := ofUInt64 1
    ¬HasPlaces 78 (one.display 78).toList ∧
      decimal (one.display 78).toList ≠ one.val / 10 ^ 78 ∧
      decimal (one.display 78).toList = 10 * (one.val / 10 ^ 78) := by
  intro one
  have hlength := (hasPlaces_display one 78).length
  have hdecimal := decimal_display one 78
  have hone : (one.val : ℚ) = 1 := rfl
  have hplaces : min 78 maxPlaces = 77 := rfl
  rw [hplaces] at hlength hdecimal
  refine ⟨fun h => ?_, ?_, ?_⟩
  · exact absurd (h.length.symm.trans hlength) (by decide)
  · rw [hdecimal, hone]
    norm_num
  · rw [hdecimal, hone]
    norm_num

end Amount
end WatchWallet
