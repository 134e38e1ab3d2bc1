import WatchWallet.Error
import WatchWallet.Record.Basic

/-!
# Explorer — Basic

What a wallet asks a blockchain explorer.  An answer about transactions may be cut: then all of its
lowest height is in it, and its highest height may be there in part.
-/

namespace WatchWallet

/-- An answer about transactions. -/
structure Answer where
  transactions : List Transaction
  /-- Whether more transactions match than the answer holds. -/
  truncated : Bool

/-- An explorer whose state `σ` may change with every request. -/
structure Explorer (σ : Type) where
  /-- The number of polls until the next request is answered. -/
  delay : σ → Nat × σ
  /-- The transactions that touch one of the addresses, from the height of a block on. -/
  transactions : List String → Option String → σ → Except ExplorerError Answer × σ
  /-- The block at the tip of the chain. -/
  tip : σ → Except ExplorerError Block × σ
  /-- The block at a height, none above the tip. -/
  block : Nat → σ → Except ExplorerError (Option Block) × σ
  /-- The unconfirmed transactions that touch one of the addresses. -/
  pending : List String → σ → Except ExplorerError (List Transaction) × σ

end WatchWallet
