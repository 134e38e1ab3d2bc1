import WatchWallet.Keychain.Basic

/-!
# Keychain — Chains

The two chains of an account: addresses given out to receive funds, and addresses for change.
-/

namespace WatchWallet

/-- One of the two chains. -/
inductive Chain where
  | receive
  | change
deriving DecidableEq

/-- The keychains of an account. -/
structure Chains where
  receive : Keychain
  change : Keychain

namespace Chains

/-- The keychain of a chain. -/
def get (c : Chains) : Chain → Keychain
  | .receive => c.receive
  | .change => c.change

/-- Changes one keychain. -/
def update (c : Chains) (chain : Chain) (f : Keychain → Keychain) : Chains :=
  match chain with
  | .receive => { c with receive := f c.receive }
  | .change => { c with change := f c.change }

/-- Whether an address belongs to the account. -/
def contains (c : Chains) (address : String) : Bool :=
  c.receive.contains address || c.change.contains address

/-- Marks an address in the chain that holds it, the receiving one first. -/
def mark (c : Chains) (address : String) : Chains :=
  if c.receive.contains address then c.update .receive (·.mark address)
  else c.update .change (·.mark address)

end Chains
end WatchWallet
