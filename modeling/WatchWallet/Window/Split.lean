/-!
# Window — Split

Where the stable part of a chain ends.  The heights closer to the tip than the unstable depth may
still be replaced; those below them are final.
-/

namespace WatchWallet

/-- The windows of a pass. -/
structure Split where
  /-- The last stable height; none if the chain is not that long. -/
  stableTo : Option Nat
  /-- The first unstable height; none if every height is stable. -/
  unstableFrom : Option Nat
deriving DecidableEq

/-- The windows of a chain whose tip is at a height. -/
def Split.ofTip (tip depth : Nat) : Split where
  stableTo := if depth ≤ tip then some (tip - depth) else none
  unstableFrom := if depth = 0 then none else some (tip + 1 - depth)

end WatchWallet
