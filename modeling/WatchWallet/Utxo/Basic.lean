import Std.Data.ExtTreeMap
import Std.Data.ExtTreeSet
import WatchWallet.Record.Basic

/-!
# Utxo — Basic

The outputs that an account can spend, built from its transactions in any order.  An own output is
available unless a listed input consumes it; what an input consumes without an own output to match
is kept apart, since its source may still turn up.
-/

namespace WatchWallet.Utxo

/-- An output, by the transaction that holds it and its position there. -/
structure Key where
  hash : String
  index : UInt32
deriving DecidableEq

/-- Keys are ordered by hash, then by position. -/
def Key.order : Key → Key → Ordering :=
  compareLex (compareOn Key.hash) (compareOn Key.index)

/-- What an output is worth, and to whom. -/
structure Value where
  amount : Amount
  address : String
deriving DecidableEq

/-- Values by key, in the order of the keys. -/
abbrev KeyMap := Std.ExtTreeMap Key Value Key.order

/-- Keys, in their order. -/
abbrev KeySet := Std.ExtTreeSet Key Key.order

instance : Std.TransCmp Key.order :=
  inferInstanceAs (Std.TransCmp (compareLex (compareOn Key.hash) (compareOn Key.index)))

/-- Two keys stand at the same place of the order only if they are the same. -/
instance : Std.LawfulEqCmp Key.order where
  eq_of_compare {k l} h := by
    obtain ⟨hhash, hindex⟩ := Ordering.then_eq_eq.1 h
    cases k
    cases l
    cases Std.LawfulEqOrd.eq_of_compare hhash
    cases Std.LawfulEqOrd.eq_of_compare hindex
    rfl

/-- The outputs of an account. -/
structure Ledger where
  /-- The outputs that can be spent. -/
  available : KeyMap
  /-- Outputs that were spent and match no available one. -/
  spent : KeySet

namespace Ledger

/-- The key that an input consumes, if it names one. -/
def consumedKey? (i : Input) : Option Key := do
  return ⟨← i.previousHash, ← i.previousIndex⟩

/-- The key and value of an output that pays an own address.  Outputs at positions beyond 32 bits
cannot be spent and have none. -/
def ownOutput? (isOwn : String → Bool) (hash : String) (o : Output) : Option (Key × Value) := do
  let address ← o.address
  if isOwn address ∧ o.index.toNat < UInt32.size then
    return (⟨hash, o.index.toUInt32⟩, ⟨o.value, address⟩)
  else none

/-- Every key that an input of the transactions consumes. -/
def consumed (txs : List Transaction) : KeySet :=
  txs.foldl (fun keys tx => (tx.inputs.filterMap consumedKey?).foldl (·.insert ·) keys) ∅

/-- Every own output of the transactions.  Of two at the same key the later one counts. -/
def received (isOwn : String → Bool) (txs : List Transaction) : KeyMap :=
  txs.foldl (fun entries tx =>
    (tx.outputs.filterMap (ownOutput? isOwn tx.hash)).foldl
      (fun entries (key, value) => entries.insert key value) entries) ∅

/-- The outputs of the account with these transactions; `isOwn` tells its addresses. -/
def ofTransactions (isOwn : String → Bool) (txs : List Transaction) : Ledger :=
  let keys := consumed txs
  let entries := received isOwn txs
  { available := entries.filter fun k _ => !keys.contains k
    spent := keys.filter fun k => !entries.contains k }

/-- The sum of the available outputs; it stops at the largest amount. -/
def balance (l : Ledger) : Amount :=
  l.available.foldl (fun total _ v => total + v.amount) Amount.zero

end Ledger
end WatchWallet.Utxo
