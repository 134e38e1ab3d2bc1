import WatchWallet.Amount.Basic

/-!
# Amount — Display

An amount as a decimal number in the main unit of its currency, with a fixed number of places.
The number shown is exactly the amount over the power of ten; no places beyond the seventy-seventh
are shown, since `10 ^ 77` is the largest power of ten that is an amount.
-/

namespace WatchWallet.Amount

/-- The greatest number of decimal places that an amount is shown with. -/
def maxPlaces : Nat := 77

/-- The amount with the point moved `places` digits to the left. -/
def display (a : Amount) (places : Nat) : String :=
  let places := min places maxPlaces
  if places = 0 then a.toText
  else
    let whole := Text.digits (a.val / Nat.pow 10 places)
    let fraction := Text.padLeft places (Text.digits (a.val % Nat.pow 10 places))
    String.ofList (whole ++ '.' :: fraction)

end WatchWallet.Amount
