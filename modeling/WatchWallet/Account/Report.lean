import WatchWallet.Account.Basic
import WatchWallet.Amount.Display
import WatchWallet.Trust
import WatchWallet.Utxo.Basic

/-!
# Account — Report

What an account owns, and how far its transactions can be relied on.
-/

namespace WatchWallet

/-- A summary of an account. -/
structure Report where
  /-- The number of transactions. -/
  transactions : Nat
  ledger : Utxo.Ledger
  /-- The number of transactions of each level that occurs. -/
  trust : List (TrustLevel × Nat)
  /-- The balance in decimal places. -/
  balance : String

/-- The summary of an account, the tip of the chain being at `tip`. -/
def Account.report (a : Account) (tip places : Nat) : Report :=
  let ledger := Utxo.Ledger.ofTransactions a.chains.contains a.transactions
  let levels := a.transactions.map fun tx => TrustLevel.ofHeight tip tx.height? tx.block.isNone
  { transactions := a.transactions.length
    ledger
    trust := (TrustLevel.all.map fun level => (level, levels.count level)).filter (0 < ·.2)
    balance := ledger.balance.display places }

namespace Report

/-- The levels that occur and their numbers. -/
def trustText (r : Report) : String :=
  "\x7b" ++ String.intercalate ", " (r.trust.map fun (level, count) =>
    level.name ++ ": " ++ String.ofList (Text.digits count)) ++ "\x7d"

/-- The report in lines of the log. -/
def lines (r : Report) : List LogLine :=
  let number (n : Nat) : String := String.ofList (Text.digits n)
  let spent := r.ledger.spent.size
  [⟨.info, number r.transactions ++ " wallet transactions, trust levels " ++ r.trustText⟩,
    ⟨.info, number r.ledger.available.size ++ " unspent outputs, balance " ++ r.balance⟩] ++
    if spent = 0 then []
    else [⟨.info, number spent ++ " spent outputs with unknown origin"⟩]

end Report
end WatchWallet
