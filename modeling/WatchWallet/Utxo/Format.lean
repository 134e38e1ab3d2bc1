import WatchWallet.Record.Format
import WatchWallet.Utxo.Basic

/-!
# Utxo — Format

The JSON and the binary form of the outputs of an account.
-/

namespace WatchWallet.Utxo

namespace Key

/-- The members as nested pairs. -/
def parts (k : Key) : String × UInt32 × Unit := (k.hash, k.index, ())

/-- The value with these members. -/
def ofParts : String × UInt32 × Unit → Key
  | (hash, index, ()) => ⟨hash, index⟩

/-- The JSON form. -/
def json : Json.Format Key :=
  Json.Members.format (.cons ⟨"tx_hash", .text, .required, []⟩
    (.cons ⟨"output_index", .uint32, .required, []⟩ .nil)) "UtxoKey" ofParts parts

/-- The binary form. -/
def binary : Binary.Format Key :=
  (Binary.Format.text.pair (Binary.Format.uint32.pair .unit)).map ofParts parts

end Key

namespace Value

/-- The members as nested pairs. -/
def parts (v : Value) : Amount × String × Unit := (v.amount, v.address, ())

/-- The value with these members. -/
def ofParts : Amount × String × Unit → Value
  | (amount, address, ()) => ⟨amount, address⟩

/-- The JSON form. -/
def json : Json.Format Value :=
  Json.Members.format (.cons ⟨"amount", .amount, .required, []⟩
    (.cons ⟨"address", .text, .required, []⟩ .nil)) "UtxoValue" ofParts parts

/-- The binary form. -/
def binary : Binary.Format Value :=
  (Binary.Format.amount.pair (Binary.Format.text.pair .unit)).map ofParts parts

end Value

namespace Ledger

/-- Both parts as sorted lists. -/
def parts (l : Ledger) : List (Key × Value) × List Key × Unit :=
  (l.available.toList, l.spent.toList, ())

/-- Of two entries at the same key the later one counts. -/
def ofParts : List (Key × Value) × List Key × Unit → Ledger
  | (available, spent, ()) => ⟨.ofList available _, .ofList spent _⟩

/-- The binary form. -/
def binary : Binary.Format Ledger :=
  ((Key.binary.pair Value.binary).list.pair (Key.binary.list.pair .unit)).map ofParts parts

/-- An object without members.  The keys of the available outputs are records, which no JSON object
can have as names. -/
def noEntries : Json.Format Unit where
  read cs :=
    match Json.skipBlank cs with
    | [] => .error (Json.Problem.endInValue.before [])
    | '\x7b' :: r => do
      match ← Json.Members.nextName true r with
      | none => return ((), Json.Members.afterClose '\x7d' r)
      | some r =>
        let (name, r) ← Json.readText r
        .error ((Json.Problem.wrongType (.text name) "struct UtxoKey").at r)
    | r => .error (Json.mismatch "a map" r)
  write _ := .object []

/-- A ledger in JSON; only one without available outputs has such a form. -/
def json : Json.Format Ledger :=
  Json.Members.format (.cons ⟨"available", noEntries, .required, []⟩
    (.cons ⟨"spent", .list Key.json, .required, []⟩ .nil)) "UtxoSourceList"
    (fun ((), spent, ()) => ofParts ([], spent, ())) (fun l => ((), l.spent.toList, ()))

end Ledger
end WatchWallet.Utxo
