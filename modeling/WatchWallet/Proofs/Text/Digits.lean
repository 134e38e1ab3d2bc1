import Mathlib.Data.List.Induction
import Mathlib.Data.List.TakeWhile
import Mathlib.Tactic.Common
import WatchWallet.Text.Blank
import WatchWallet.Text.Digits

/-!
# Text — Digits

Runs of digits, as they are written and cut off again.  Zeros in front change neither the value
(`value_padLeft`) nor that all characters are digits, and bring the digits of a number to a fixed
length (`length_padLeft_digits`).  Without superfluous zeros a number has one text (`Canonical`), the one
that it is written with (`digits_value`).
-/

namespace WatchWallet.Text

/-! ### Characters -/

theorem isDigit_iff {c : Char} : isDigit c = true ↔ 48 ≤ c.toNat ∧ c.toNat ≤ 57 := by
  rw [isDigit, Bool.and_eq_true, decide_eq_true_eq, decide_eq_true_eq]
  rfl

/-- No digit is white space. -/
theorem isBlank_of_isDigit {c : Char} (h : isDigit c = true) : isBlank c = false := by
  obtain ⟨hlo, hhi⟩ := isDigit_iff.1 h
  simp only [isBlank, Bool.or_eq_false_iff, Bool.and_eq_false_iff, decide_eq_false_iff_not,
    beq_eq_false_iff_ne]
  omega

/-- A digit is the one that its number is written with. -/
theorem digitChar_digitValue {c : Char} (h : isDigit c = true) : Nat.digitChar (digitValue c) = c := by
  have hdigit : ∀ d < 10, Nat.digitChar d = Char.ofNat (48 + d) := by decide
  obtain ⟨hlo, hhi⟩ := isDigit_iff.1 h
  have hvalue : digitValue c = c.toNat - 48 := rfl
  rw [hdigit _ (by omega), hvalue, Nat.add_sub_cancel' hlo, Char.ofNat_toNat]

/-! ### Padding -/

theorem value_replicate (k : Nat) : value (List.replicate k '0') = 0 := by
  induction k with
  | zero => rfl
  | succ k ih => rw [List.replicate_succ', value_concat, ih]; rfl

/-- Zeros in front leave a number what it is. -/
theorem value_padLeft (width : Nat) (cs : List Char) : value (padLeft width cs) = value cs := by
  rw [padLeft, value_append, value_replicate]
  rfl

theorem isDigit_of_mem_padLeft {width n : Nat} {c : Char} (h : c ∈ padLeft width (digits n)) :
    isDigit c = true := by
  rcases List.mem_append.1 h with h | h
  · rw [List.eq_of_mem_replicate h]
    rfl
  · exact isDigit_of_mem_digits h

theorem digits_ne_nil (n : Nat) : digits n ≠ [] :=
  Nat.toDigits_ne_nil

/-- No number but zero starts with the digit zero. -/
theorem eq_nil_of_digits_eq {n : Nat} {r : List Char} (h : digits n = '0' :: r) : r = [] := by
  induction n using Nat.strongRecOn generalizing r with
  | ind n ih =>
      rw [digits_eq] at h
      split at h
      · exact (List.cons.inj h).2.symm
      · rename_i hn
        cases hdigits : digits (n / 10) with
        | nil => exact absurd hdigits (digits_ne_nil _)
        | cons c cs =>
            rw [hdigits] at h
            obtain ⟨rfl, -⟩ := List.cons.inj h
            have hvalue := value_digits (n / 10)
            rw [hdigits, ih (n / 10) (by omega) hdigits] at hvalue
            have hzero : n / 10 = 0 := hvalue.symm
            omega

theorem padLeft_digits_ne_nil (width n : Nat) : padLeft width (digits n) ≠ [] :=
  List.append_ne_nil_of_right_ne_nil _ (digits_ne_nil n)

/-- A number with no more digits than the width is brought to the width. -/
theorem length_padLeft_digits {width n : Nat} (hwidth : 0 < width) (hn : n < Nat.pow 10 width) :
    (padLeft width (digits n)).length = width := by
  have hle : (digits n).length ≤ width := (Nat.length_toDigits_le_iff (by decide) hwidth).2 hn
  rw [padLeft, List.length_append, List.length_replicate, Nat.sub_add_cancel hle]

@[simp] theorem value_padLeft_digits (width n : Nat) : value (padLeft width (digits n)) = n := by
  rw [value_padLeft, value_digits]

/-! ### Numbers without superfluous zeros -/

/-- A run of digits that starts with a zero only if it is that zero. -/
structure Canonical (cs : List Char) : Prop where
  isDigit : ∀ c ∈ cs, isDigit c = true
  ne_nil : cs ≠ []
  lead : ∀ r, cs = '0' :: r → r = []

theorem canonical_digits (n : Nat) : Canonical (digits n) :=
  ⟨fun _ => isDigit_of_mem_digits, digits_ne_nil n, fun _ => eq_nil_of_digits_eq⟩

/-- A number has one canonical text. -/
theorem Canonical.digits_value {cs : List Char} (h : Canonical cs) : digits (value cs) = cs := by
  induction cs using List.reverseRecOn with
  | nil => exact absurd rfl h.ne_nil
  | append_singleton xs c ih =>
      have hc : Text.isDigit c = true := h.isDigit c (by simp)
      have hlt : digitValue c < 10 := by
        have hvalue : digitValue c = c.toNat - 48 := rfl
        have hhi := (isDigit_iff.1 hc).2
        omega
      rw [value_concat, digits_eq, Nat.mul_add_mod, Nat.mod_eq_of_lt hlt, digitChar_digitValue hc]
      by_cases hxs : xs = []
      · subst hxs
        rw [value_nil, Nat.mul_zero, Nat.zero_add, if_pos hlt]
      · -- The digits in front are canonical as well, and they are not the zero alone.
        have hfront : ∀ r, xs ≠ '0' :: r := by
          rintro r rfl
          exact absurd (h.lead (r ++ [c]) rfl) (by simp)
        have hcanonical : Canonical xs :=
          ⟨fun x hx => h.isDigit x (List.mem_append_left _ hx), hxs, fun r hr => absurd hr (hfront r)⟩
        have hpos : value xs ≠ 0 := by
          intro hzero
          have hdigits := ih hcanonical
          rw [hzero] at hdigits
          exact hfront [] hdigits.symm
        rw [if_neg (by omega), Nat.mul_add_div (by decide), Nat.div_eq_of_lt hlt, Nat.add_zero,
          ih hcanonical]

/-- A run of digits without its leading zeros; of zeros alone one is left. -/
def withoutZeros (cs : List Char) : List Char :=
  match cs.dropWhile (· == '0') with
  | [] => ['0']
  | c :: r => c :: r

theorem canonical_withoutZeros {cs : List Char} (h : ∀ c ∈ cs, isDigit c = true) :
    Canonical (withoutZeros cs) := by
  unfold withoutZeros
  split
  · exact canonical_digits 0
  · rename_i c r hdrop
    refine ⟨fun x hx => h x ((List.dropWhile_sublist _).mem (hdrop ▸ hx)), List.cons_ne_nil c r, ?_⟩
    rintro r' hr'
    obtain ⟨rfl, -⟩ := List.cons.inj hr'
    have hhead := List.head_dropWhile_not (· == '0') (l := cs) (by rw [hdrop]; exact List.cons_ne_nil _ _)
    simp [hdrop] at hhead

theorem value_withoutZeros (cs : List Char) : value (withoutZeros cs) = value cs := by
  have hdrop : value (cs.dropWhile (· == '0')) = value cs := by
    induction cs with
    | nil => rfl
    | cons c cs ih =>
        rw [List.dropWhile_cons]
        split
        · rename_i hc
          obtain rfl := eq_of_beq hc
          exact ih
        · rfl
  unfold withoutZeros
  split
  · rename_i hnil
    rw [← hdrop, hnil]
    rfl
  · rename_i hcons
    rw [← hdrop, hcons]

/-- What a number is written with are the digits that it was given with, but for leading zeros. -/
theorem digits_value {cs : List Char} (h : ∀ c ∈ cs, isDigit c = true) :
    digits (value cs) = withoutZeros cs := by
  rw [← value_withoutZeros, (canonical_withoutZeros h).digits_value]

/-! ### Runs of digits -/

/-- The text does not start with a digit. -/
def Stops (cs : List Char) : Prop :=
  ∀ c ∈ cs.head?, isDigit c = false

theorem Stops.takeWhile {cs : List Char} (h : Stops cs) : cs.takeWhile isDigit = [] := by
  cases cs with
  | nil => rfl
  | cons c cs => rw [List.takeWhile_cons, h c rfl]; rfl

theorem Stops.take {cs : List Char} (h : Stops cs) (k : Nat) : Stops (cs.take k) := by
  cases k with
  | zero => exact fun c hc => absurd hc (Option.not_mem_none c)
  | succ k =>
      cases cs with
      | nil => exact h
      | cons c cs => exact h

theorem Stops.dropWhile {cs : List Char} (h : Stops cs) : cs.dropWhile isDigit = cs := by
  cases cs with
  | nil => rfl
  | cons c cs => rw [List.dropWhile_cons, h c rfl]; rfl

/-- A run of digits is cut off where something else follows. -/
theorem takeWhile_run {ds rest : List Char} (hds : ∀ c ∈ ds, isDigit c = true) (hrest : Stops rest) :
    (ds ++ rest).takeWhile isDigit = ds := by
  rw [List.takeWhile_append_of_pos hds, hrest.takeWhile, List.append_nil]

/-- What follows a run of digits does not start with one. -/
theorem stops_dropWhile (cs : List Char) : Stops (cs.dropWhile isDigit) := by
  intro c hc
  obtain ⟨r, hdrop⟩ := List.head?_eq_some_iff.1 (Option.mem_def.1 hc)
  have hne : cs.dropWhile isDigit ≠ [] := hdrop ▸ List.cons_ne_nil c r
  have hnot := List.head_dropWhile_not isDigit hne
  simpa only [hdrop, List.head_cons] using hnot

theorem drop_takeWhile (cs : List Char) :
    cs.drop (cs.takeWhile isDigit).length = cs.dropWhile isDigit :=
  calc cs.drop (cs.takeWhile isDigit).length
      = (cs.takeWhile isDigit ++ cs.dropWhile isDigit).drop (cs.takeWhile isDigit).length := by
        rw [List.takeWhile_append_dropWhile]
    _ = cs.dropWhile isDigit := List.drop_left

theorem trimLeft_run {ds rest : List Char} (hds : ∀ c ∈ ds, isDigit c = true) (hne : ds ≠ []) :
    trimLeft (ds ++ rest) = ds ++ rest := by
  cases ds with
  | nil => exact absurd rfl hne
  | cons d ds => exact trimLeft_cons (isBlank_of_isDigit (hds d List.mem_cons_self))

/-- A run of digits has no white space at its ends. -/
theorem trim_run {ds : List Char} (hds : ∀ c ∈ ds, isDigit c = true) (hne : ds ≠ []) :
    trim ds = ds := by
  have hfront : trimLeft (ds ++ []) = ds ++ [] := trimLeft_run hds hne
  have hback : trimLeft (ds.reverse ++ []) = ds.reverse ++ [] :=
    trimLeft_run (fun c hc => hds c (List.mem_reverse.1 hc)) (mt List.reverse_eq_nil_iff.1 hne)
  rw [List.append_nil] at hfront hback
  rw [trim, hfront, trimRight, hback, List.reverse_reverse]

/-! ### White space around -/

/-- White space at the ends does not matter. -/
theorem trim_append {front back : List Char} (hfront : ∀ c ∈ front, isBlank c = true)
    (hback : ∀ c ∈ back, isBlank c = true) (cs : List Char) : trim (front ++ (cs ++ back)) = trim cs := by
  have hleft : trimLeft (front ++ (cs ++ back)) = trimLeft (cs ++ back) :=
    List.dropWhile_append_of_pos hfront
  have hblank : trimLeft back = [] := List.dropWhile_eq_nil_iff.2 hback
  have hright : ∀ xs, trimRight (xs ++ back) = trimRight xs := by
    intro xs
    rw [trimRight, List.reverse_append]
    exact congrArg List.reverse
      (List.dropWhile_append_of_pos fun c hc => hback c (List.mem_reverse.1 hc))
  rw [trim, hleft, trim, trimLeft, List.dropWhile_append]
  split
  · rename_i hnil
    rw [show (back.dropWhile isBlank) = [] from hblank, trimLeft, List.isEmpty_iff.1 hnil]
  · exact hright _

/-- Only white space is cut off at the ends. -/
theorem exists_eq_trim (cs : List Char) : ∃ front back, (∀ c ∈ front, isBlank c = true) ∧
    (∀ c ∈ back, isBlank c = true) ∧ cs = front ++ (trim cs ++ back) := by
  refine ⟨cs.takeWhile isBlank, ((trimLeft cs).reverse.takeWhile isBlank).reverse,
    fun _ => List.mem_takeWhile_imp, fun c hc => List.mem_takeWhile_imp (List.mem_reverse.1 hc), ?_⟩
  have hright : trim cs ++ ((trimLeft cs).reverse.takeWhile isBlank).reverse = trimLeft cs := by
    have hsplit := List.takeWhile_append_dropWhile (p := isBlank) (l := (trimLeft cs).reverse)
    rw [trim, trimRight, ← List.reverse_append]
    exact (congrArg List.reverse hsplit).trans (List.reverse_reverse _)
  rw [hright]
  exact List.takeWhile_append_dropWhile.symm

/-- A run of digits is all that is left of it with white space around. -/
theorem trim_eq_iff {cs ds : List Char} (hds : ∀ c ∈ ds, isDigit c = true) :
    trim cs = ds ↔ ∃ front back, (∀ c ∈ front, isBlank c = true) ∧ (∀ c ∈ back, isBlank c = true) ∧
      cs = front ++ (ds ++ back) := by
  constructor
  · rintro rfl
    exact exists_eq_trim cs
  · rintro ⟨front, back, hfront, hback, rfl⟩
    rw [trim_append hfront hback]
    by_cases hne : ds = []
    · subst hne
      rfl
    · exact trim_run hds hne

end WatchWallet.Text
