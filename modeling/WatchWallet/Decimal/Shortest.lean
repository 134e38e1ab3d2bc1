import WatchWallet.Decimal.Double
import WatchWallet.Text.Digits

/-!
# Decimal — Shortest

The fewest decimal digits that read back as a given double, and among those the nearest.  Numbers
from `1e-5` up to sixteen digits before the point are written out, all others with a signed
exponent.
-/

namespace WatchWallet.Double

/-- A decimal number `digits * 10 ^ power`. -/
structure Scaled where
  digits : Nat
  power : Int

/-- The power of ten at the first digit of a positive quotient. -/
def leadingPower (num den : Nat) : Int :=
  if den ≤ num then ((Text.digits (num / den)).length : Int) - 1
  else -(((List.range 400).find? fun j => den ≤ num * Nat.pow 10 j).getD 0 : Int)

/-- Whether `digits * 10 ^ power` rounds to the double.  The ends of its interval lie half way to
its neighbours, and belong to it when its mantissa is even. -/
def attracts (x : Double) (s : Scaled) : Bool :=
  let (num, den) := x.ratio
  let unit := Nat.pow 2 x.exponent.toNat
  let below := if x.mantissa = Nat.pow 2 52 ∧ minExponent < x.exponent then unit else 2 * unit
  let value := s.digits * Nat.pow 10 s.power.toNat * (4 * den)
  let shift := Nat.pow 10 (-s.power).toNat
  let low := (4 * num - below) * shift
  let high := (4 * num + 2 * unit) * shift
  if x.mantissa % 2 = 0 then low ≤ value && value ≤ high else low < value && value < high

/-- The neighbours of a double on the grid with `count` digits, the nearer one first. -/
def neighbours (x : Double) (count : Nat) : List Scaled :=
  let (num, den) := x.ratio
  let power := leadingPower num den - (count - 1)
  let n := num * Nat.pow 10 (-power).toNat
  let d := den * Nat.pow 10 power.toNat
  let floor : Scaled := ⟨n / d, power⟩
  let ceil : Scaled := ⟨n / d + 1, power⟩
  if 2 * (n % d) < d ∨ (2 * (n % d) = d ∧ n / d % 2 = 0) then [floor, ceil] else [ceil, floor]

/-- The shortest decimal that reads back as a positive double. -/
def shortest (x : Double) : Scaled :=
  let found := (List.range 17).findSome? fun i => (neighbours x (i + 1)).find? (attracts x)
  strip 20 (found.getD ⟨0, 0⟩)
where
  /-- Zeros at the end of the digits move into the power. -/
  strip : Nat → Scaled → Scaled
    | 0, s => s
    | fuel + 1, s =>
      if s.digits ≠ 0 ∧ s.digits % 10 = 0 then strip fuel ⟨s.digits / 10, s.power + 1⟩ else s

/-- An exponent with its sign. -/
def exponentText (e : Int) : List Char :=
  (if e < 0 then '-' else '+') :: Text.digits e.natAbs

/-- The text of a positive decimal. -/
def Scaled.toText (s : Scaled) : List Char :=
  let ds := Text.digits s.digits
  let point : Int := ds.length + s.power
  if 0 ≤ s.power ∧ point ≤ 16 then ds ++ List.replicate s.power.toNat '0' ++ ['.', '0']
  else if 0 < point ∧ point ≤ 16 then ds.take point.toNat ++ '.' :: ds.drop point.toNat
  else if -5 < point ∧ point ≤ 0 then '0' :: '.' :: List.replicate (-point).toNat '0' ++ ds
  else
    let fraction := if ds.length = 1 then [] else '.' :: ds.drop 1
    ds.take 1 ++ fraction ++ 'e' :: exponentText (point - 1)

/-- The text of a double; both zeros keep their sign. -/
def toText (x : Double) : String :=
  let magnitude := if x.mantissa = 0 then ['0', '.', '0'] else x.shortest.toText
  String.ofList (if x.negative then '-' :: magnitude else magnitude)

end WatchWallet.Double
