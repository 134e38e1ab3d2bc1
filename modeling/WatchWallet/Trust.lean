import WatchWallet.Binary.Format
import WatchWallet.Json.Format

/-!
# Trust

How far a transaction can be relied on, by its depth in the chain: it is trusted once more than five
blocks lie on top of its own.
-/

namespace WatchWallet

/-- How much a transaction can be relied on. -/
inductive TrustLevel where
  | trusted
  | untrusted
  | pending
  | dropped
deriving DecidableEq

namespace TrustLevel

/-- The number of blocks on top of a block past which its transactions are final. -/
def finalDepth : Nat := 5

/-- The greatest height there is. -/
def maxHeight : Nat := UInt32.size - 1

/-- The level of a transaction mined at `height?`, the tip of the chain being at `tip`.  One that is
not mined is pending as long as the explorer reports it. -/
def ofHeight (tip : Nat) (height? : Option Nat) (inMempool : Bool) : TrustLevel :=
  match height? with
  | some height =>
    if min (height + finalDepth) maxHeight < tip then trusted
    else if height < tip then untrusted
    else pending
  | none => if inMempool then pending else dropped

/-- All levels, in the order of their numbers. -/
def all : List TrustLevel := [trusted, untrusted, pending, dropped]

/-- The name of a level. -/
def name : TrustLevel → String
  | trusted => "Trusted"
  | untrusted => "Untrusted"
  | pending => "Pending"
  | dropped => "Dropped"

/-- The JSON form. -/
def json : Json.Format TrustLevel :=
  Json.Format.variants (all.map fun level => (level.name, level))

/-- The binary form. -/
def binary : Binary.Format TrustLevel :=
  Binary.Format.variants all

end TrustLevel
end WatchWallet
