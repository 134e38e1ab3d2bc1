import WatchWallet.Text.Blank
import WatchWallet.Text.Digits
import WatchWallet.Text.Quoted

/-!
# Amount — Basic

Amounts of a currency in its smallest unit: natural numbers below `2 ^ 256`.  Sums stop at the
largest amount.  A text is an amount when, without white space at its ends, it is a run of ASCII
digits whose value fits; the empty run is zero.
-/

namespace WatchWallet

/-- The number of different amounts, two to the power of 256. -/
def Amount.size : Nat := Nat.pow 2 256

/-- An unsigned amount of 256 bits. -/
structure Amount where
  val : Nat
  lt : val < Amount.size
deriving DecidableEq

namespace Amount

/-- Why a text or a number is no amount. -/
inductive Error
  /-- The text is not a number below `2 ^ 256`. -/
  | invalid (text : String)
  /-- The number lies `magnitude` below zero. -/
  | negative (magnitude : Nat)
deriving DecidableEq

/-- The wording of an amount error. -/
def Error.message : Error → String
  | .invalid text => "invalid amount: " ++ Text.quoted text
  | .negative magnitude => "negative amount: -" ++ String.ofList (Text.digits magnitude)

/-- Nothing. -/
def zero : Amount := ⟨0, by decide⟩

/-- The largest amount. -/
def max : Amount := ⟨size - 1, by decide⟩

instance : Inhabited Amount := ⟨zero⟩

@[ext] theorem ext {a b : Amount} (h : a.val = b.val) : a = b := by
  cases a; cases b; simp_all

/-- The amount with this value, if there is one. -/
def ofNat? (n : Nat) : Option Amount :=
  if h : n < size then some ⟨n, h⟩ else none

/-- The amount nearest to a number. -/
def clamp (n : Nat) : Amount :=
  (ofNat? n).getD max

/-- A word of 64 bits as an amount. -/
def ofUInt64 (n : UInt64) : Amount :=
  ⟨n.toNat, Nat.lt_trans n.toNat_lt (by decide)⟩

/-- Whether the amount is zero. -/
def isZero (a : Amount) : Bool :=
  a.val == 0

/-- The sum, or the largest amount where the sum does not fit. -/
def add (a b : Amount) : Amount :=
  clamp (a.val + b.val)

instance : Add Amount := ⟨add⟩

instance : Ord Amount := ⟨fun a b => compare a.val b.val⟩

theorem val_clamp (n : Nat) : (clamp n).val = min n (size - 1) := by
  unfold clamp ofNat?
  split
  · simp only [Option.getD_some]; omega
  · simp only [Option.getD_none, max]; omega

/-- Addition saturates. -/
theorem val_add (a b : Amount) : (a + b).val = min (a.val + b.val) (size - 1) :=
  val_clamp _

/-- One more digit behind an amount, if ten times the amount fits and the sum with the digit does. -/
def push? (a : Amount) (c : Char) : Option Amount :=
  if Text.isDigit c then do
    let tenfold ← ofNat? (10 * a.val)
    ofNat? (tenfold.val + Text.digitValue c)
  else none

/-- The amount with these digits, read one after another; without digits it is zero. -/
def ofDigits? (cs : List Char) : Option Amount :=
  cs.foldlM push? zero

/-- Reads an amount; the text in an error is the whole text given. -/
def parse (s : String) : Except Error Amount :=
  match ofDigits? (Text.trim s.toList) with
  | some a => .ok a
  | none => .error (.invalid s)

/-- The amount in base ten, without leading zeros. -/
def toText (a : Amount) : String :=
  String.ofList (Text.digits a.val)

instance : ToString Amount := ⟨toText⟩

end Amount
end WatchWallet
