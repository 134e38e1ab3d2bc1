/-!
# Decimal — Double

The binary numbers of double precision, as exact values `mantissa * 2 ^ exponent`, and the rounding
of a quotient to the nearest of them, ties to the even mantissa.
-/

namespace WatchWallet

/-- A finite number of double precision. -/
structure Double where
  negative : Bool
  mantissa : Nat
  exponent : Int
deriving DecidableEq

namespace Double

/-- The exponent of the smallest numbers. -/
def minExponent : Int := -1074

/-- The exponent of the greatest numbers. -/
def maxExponent : Int := 971

/-- A quotient rounded to the nearest natural number, ties to even. -/
def divNearest (num den : Nat) : Nat :=
  let q := num / den
  let r := num % den
  if den < 2 * r ∨ (2 * r = den ∧ q % 2 = 1) then q + 1 else q

/-- The quotient `num / den` over `2 ^ e`, rounded. -/
def divScaled (num den : Nat) (e : Int) : Nat :=
  divNearest (num * Nat.pow 2 (-e).toNat) (den * Nat.pow 2 e.toNat)

/-- The double nearest to `num / den`; none where that is infinite. -/
def ofRatio? (num den : Nat) : Option Double :=
  if num = 0 then some ⟨false, 0, minExponent⟩
  else
    let guess : Int := (num.log2 : Int) - den.log2 - 53
    let e := max guess minExponent
    let e := if divScaled num den e < Nat.pow 2 53 then e else e + 1
    let m := divScaled num den e
    let (m, e) := if m = Nat.pow 2 53 then (Nat.pow 2 52, e + 1) else (m, e)
    if maxExponent < e then none else some ⟨false, m, e⟩

/-- Both parts of the exact value of a positive double, as a quotient. -/
def ratio (x : Double) : Nat × Nat :=
  (x.mantissa * Nat.pow 2 x.exponent.toNat, Nat.pow 2 (-x.exponent).toNat)

/-- The exact product rounded. -/
def mul? (x y : Double) : Option Double :=
  (ofRatio? (x.ratio.1 * y.ratio.1) (x.ratio.2 * y.ratio.2)).map fun z =>
    { z with negative := x.negative != y.negative }

/-- The exact quotient rounded; the divisor is not zero. -/
def div? (x y : Double) : Option Double :=
  (ofRatio? (x.ratio.1 * y.ratio.2) (x.ratio.2 * y.ratio.1)).map fun z =>
    { z with negative := x.negative != y.negative }

/-- The double nearest to `10 ^ k`. -/
def powTen? (k : Nat) : Option Double :=
  ofRatio? (Nat.pow 10 k) 1

/-- The value of a literal with these digits and this power of ten.  The digits are rounded to a
double first and scaled by a rounded power of ten after that, at most 308 at a time; none where the
value is infinite. -/
def ofScaled? (digits : Nat) (power : Int) : Option Double :=
  match ofRatio? digits 1 with
  | none => none
  | some x =>
    if digits = 0 then some x
    else if 0 ≤ power then
      if 308 < power then none else (powTen? power.toNat).bind (x.mul? ·)
    else shrink 3 x power.natAbs
where
  /-- Division by `10 ^ k` in steps; three steps reach zero from any literal. -/
  shrink (steps : Nat) (x : Double) (k : Nat) : Option Double :=
    if k ≤ 308 then (powTen? k).bind (x.div? ·)
    else
      match steps with
      | 0 => some ⟨x.negative, 0, minExponent⟩
      | steps + 1 =>
        match (powTen? 308).bind (x.div? ·) with
        | none => none
        | some y => if y.mantissa = 0 then some y else shrink steps y (k - 308)

end Double
end WatchWallet
