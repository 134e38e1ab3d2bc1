import Std.Data.ExtTreeMap
import WatchWallet.Record.Basic

/-!
# Window — Buckets

The transactions accepted so far at heights that are not complete.  A height holds each hash once,
in the order of arrival, and no bucket is ever empty.
-/

namespace WatchWallet

/-- The accepted transactions by height. -/
structure Buckets where
  byHeight : Std.ExtTreeMap Nat (List Transaction)

namespace Buckets

/-- Nothing waits. -/
def empty : Buckets := ⟨∅⟩

/-- The transactions held at a height. -/
def get (b : Buckets) (height : Nat) : List Transaction :=
  b.byHeight[height]?.getD []

/-- Whether a transaction would enter a bucket: it has a block, and its hash is new at the height. -/
def accepts (b : Buckets) (tx : Transaction) : Bool :=
  tx.height?.any fun height => !(b.get height).any (·.hash == tx.hash)

/-- Puts a transaction into the bucket of its height; one that is not accepted changes nothing. -/
def add (b : Buckets) (tx : Transaction) : Buckets :=
  match tx.height? with
  | none => b
  | some height =>
    if b.accepts tx then ⟨b.byHeight.insert height (b.get height ++ [tx])⟩ else b

/-- Empties the bucket of a height. -/
def remove (b : Buckets) (height : Nat) : Buckets :=
  ⟨b.byHeight.erase height⟩

/-- The number of heights that hold transactions. -/
def size (b : Buckets) : Nat := b.byHeight.size

end Buckets
end WatchWallet
