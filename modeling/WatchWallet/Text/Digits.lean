/-!
# Text — Digits

Natural numbers in base ten.  `value_digits` says that the digits of a number read back as that
number, and `digits_eq` gives them from the last one on.
-/

namespace WatchWallet.Text

/-- The ASCII digits; no other decimal digit of Unicode counts as one here. -/
def isDigit (c : Char) : Bool :=
  '0' ≤ c && c ≤ '9'

/-- The number that an ASCII digit stands for. -/
def digitValue (c : Char) : Nat :=
  c.toNat - '0'.toNat

/-- The number that a text of digits stands for; the empty text stands for zero. -/
def value (cs : List Char) : Nat :=
  cs.foldl (fun n c => 10 * n + digitValue c) 0

/-- The digits of a number, without leading zeros. -/
def digits (n : Nat) : List Char :=
  Nat.toDigits 10 n

/-- A text brought to a width by zeros in front; a longer one stays as it is. -/
def padLeft (width : Nat) (cs : List Char) : List Char :=
  List.replicate (width - cs.length) '0' ++ cs

/-- The two last digits of a number. -/
def twoDigits (n : Nat) : List Char :=
  padLeft 2 (digits n)

/-- The number that a text of digits stands for, if it fits a word of 32 bits.  A plus sign may stand
in front. -/
def uint32? (cs : List Char) : Option Nat :=
  let ds := match cs with
    | '+' :: r => r
    | r => r
  if ds ≠ [] ∧ ds.all isDigit ∧ value ds < UInt32.size then some (value ds) else none

@[simp] theorem value_nil : value [] = 0 := rfl

theorem value_append (xs ys : List Char) :
    value (xs ++ ys) = ys.foldl (fun n c => 10 * n + digitValue c) (value xs) := by
  simp [value, List.foldl_append]

theorem value_concat (xs : List Char) (c : Char) :
    value (xs ++ [c]) = 10 * value xs + digitValue c := by
  simp [value_append]

theorem digits_eq (n : Nat) :
    digits n = (if n < 10 then [] else digits (n / 10)) ++ [Nat.digitChar (n % 10)] := by
  unfold digits
  rw [Nat.toDigits_eq_if (by decide)]
  split
  · rename_i h
    simp [Nat.mod_eq_of_lt h]
  · rfl

theorem digitChar_cases {d : Nat} (h : d < 10) :
    isDigit (Nat.digitChar d) = true ∧ digitValue (Nat.digitChar d) = d := by
  match d, h with
  | 0, _ | 1, _ | 2, _ | 3, _ | 4, _ | 5, _ | 6, _ | 7, _ | 8, _ | 9, _ => decide

theorem value_digits (n : Nat) : value (digits n) = n := by
  induction n using Nat.strongRecOn with
  | ind n ih =>
    rw [digits_eq, value_concat, (digitChar_cases (Nat.mod_lt n (by decide))).2]
    split
    · rename_i h
      simp [Nat.mod_eq_of_lt h]
    · rw [ih (n / 10) (by omega)]
      omega

theorem isDigit_of_mem_digits {n : Nat} {c : Char} (h : c ∈ digits n) : isDigit c = true := by
  induction n using Nat.strongRecOn with
  | ind n ih =>
    rw [digits_eq] at h
    simp only [List.mem_append, List.mem_singleton] at h
    rcases h with h | rfl
    · split at h
      · simp at h
      · exact ih (n / 10) (by omega) h
    · exact (digitChar_cases (Nat.mod_lt n (by decide))).1

end WatchWallet.Text
