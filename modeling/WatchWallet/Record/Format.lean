import WatchWallet.Binary.Format
import WatchWallet.Json.Format
import WatchWallet.Record.Basic

/-!
# Record — Format

The JSON and the binary form of the records.  Both give the members of a record in the same order.
-/

namespace WatchWallet

namespace Block

/-- The members as nested pairs. -/
def parts (b : Block) : String × UInt32 × Instant × Unit :=
  (b.hash, b.height, b.createdAt, ())

/-- The value with these members. -/
def ofParts : String × UInt32 × Instant × Unit → Block
  | (hash, height, createdAt, ()) => ⟨hash, height, createdAt⟩

/-- The JSON form. -/
def json : Json.Format Block :=
  Json.Members.format (.cons ⟨"hash", .text, .required, []⟩
    (.cons ⟨"height", .uint32, .required, []⟩
    (.cons ⟨"created_at", .instant, .required, []⟩ .nil))) "Block" ofParts parts

/-- The binary form. -/
def binary : Binary.Format Block :=
  (Binary.Format.text.pair (Binary.Format.uint32.pair (Binary.Format.instant.pair .unit))).map
    ofParts parts

end Block

namespace Input

/-- The members as nested pairs. -/
def parts (i : Input) : UInt64 × Option Amount × Option String × Option UInt32 × Option String ×
    Option String × Option String × UInt32 × Unit :=
  (i.index, i.value, i.previousHash, i.previousIndex, i.address, i.signatureScript, i.coinbase,
    i.sequence, ())

/-- The value with these members. -/
def ofParts : UInt64 × Option Amount × Option String × Option UInt32 × Option String ×
    Option String × Option String × UInt32 × Unit → Input
  | (index, value, previousHash, previousIndex, address, signatureScript, coinbase, sequence, ()) =>
    ⟨index, value, previousHash, previousIndex, address, signatureScript, coinbase, sequence⟩

/-- The JSON form. -/
def json : Json.Format Input :=
  Json.Members.format (.cons ⟨"index", .uint64, .required, []⟩
    (.cons ⟨"value", .option .amount, .optional none, []⟩
    (.cons ⟨"previous_tx_hash", .option .text, .optional none, []⟩
    (.cons ⟨"previous_output_index", .option .uint32, .optional none, []⟩
    (.cons ⟨"address", .option .text, .optional none, []⟩
    (.cons ⟨"signature_script", .option .text, .optional none, []⟩
    (.cons ⟨"coinbase", .option .text, .optional none, []⟩
    (.cons ⟨"sequence", .uint32, .required, []⟩ .nil)))))))) "Input" ofParts parts

/-- The binary form. -/
def binary : Binary.Format Input :=
  (Binary.Format.uint64.pair (Binary.Format.amount.option.pair (Binary.Format.text.option.pair
    (Binary.Format.uint32.option.pair (Binary.Format.text.option.pair
    (Binary.Format.text.option.pair (Binary.Format.text.option.pair
    (Binary.Format.uint32.pair .unit)))))))).map ofParts parts

end Input

namespace Output

/-- The members as nested pairs. -/
def parts (o : Output) : UInt64 × String × Amount × Option String × String × String × Unit :=
  (o.index, o.transactionHash, o.value, o.address, o.script, o.time, ())

/-- The value with these members. -/
def ofParts : UInt64 × String × Amount × Option String × String × String × Unit → Output
  | (index, transactionHash, value, address, script, time, ()) =>
    ⟨index, transactionHash, value, address, script, time⟩

/-- The JSON form. -/
def json : Json.Format Output :=
  Json.Members.format (.cons ⟨"index", .uint64, .required, []⟩
    (.cons ⟨"transaction_hash", .text, .required, []⟩
    (.cons ⟨"value", .amount, .required, []⟩
    (.cons ⟨"address", .option .text, .optional none, []⟩
    (.cons ⟨"script", .text, .required, []⟩
    (.cons ⟨"time", .text, .required, []⟩ .nil)))))) "Output" ofParts parts

/-- The binary form. -/
def binary : Binary.Format Output :=
  (Binary.Format.uint64.pair (Binary.Format.text.pair (Binary.Format.amount.pair
    (Binary.Format.text.option.pair (Binary.Format.text.pair
    (Binary.Format.text.pair .unit)))))).map ofParts parts

end Output

namespace Transaction

/-- The members as nested pairs. -/
def parts (t : Transaction) : UInt32 × String × Instant × UInt64 × Option Block × List Input ×
    List Output × Option Amount × UInt64 × Unit :=
  (t.version, t.hash, t.receivedAt, t.lockTime, t.block, t.inputs, t.outputs, t.fees,
    t.confirmations, ())

/-- The value with these members. -/
def ofParts : UInt32 × String × Instant × UInt64 × Option Block × List Input × List Output ×
    Option Amount × UInt64 × Unit → Transaction
  | (version, hash, receivedAt, lockTime, block, inputs, outputs, fees, confirmations, ()) =>
    ⟨version, hash, receivedAt, lockTime, block, inputs, outputs, fees, confirmations⟩

/-- The JSON form. -/
def json : Json.Format Transaction :=
  Json.Members.format (.cons ⟨"version", .uint32, .required, []⟩
    (.cons ⟨"hash", .text, .required, []⟩
    (.cons ⟨"received_at", .instant, .required, []⟩
    (.cons ⟨"lock_time", .uint64, .required, []⟩
    (.cons ⟨"block", .option Block.json, .optional none, []⟩
    (.cons ⟨"inputs", .list Input.json, .required, []⟩
    (.cons ⟨"outputs", .list Output.json, .required, []⟩
    (.cons ⟨"fees", .option .amount, .optional none, []⟩
    (.cons ⟨"confirmations", .uint64, .required, []⟩ .nil))))))))) "Transaction" ofParts parts

/-- The binary form. -/
def binary : Binary.Format Transaction :=
  (Binary.Format.uint32.pair (Binary.Format.text.pair (Binary.Format.instant.pair
    (Binary.Format.uint64.pair (Block.binary.option.pair (Input.binary.list.pair
    (Output.binary.list.pair (Binary.Format.amount.option.pair
    (Binary.Format.uint64.pair .unit))))))))).map ofParts parts

end Transaction

namespace FilledBlock

/-- The members as nested pairs. -/
def parts (b : FilledBlock) : Block × List Transaction × Unit :=
  (b.header, b.transactions, ())

/-- The value with these members. -/
def ofParts : Block × List Transaction × Unit → FilledBlock
  | (header, transactions, ()) => ⟨header, transactions⟩

/-- The JSON form. -/
def json : Json.Format FilledBlock :=
  Json.Members.format (.cons ⟨"header", Block.json, .required, []⟩
    (.cons ⟨"transactions", .list Transaction.json, .required, []⟩ .nil))
    "FilledBlock" ofParts parts

/-- The binary form. -/
def binary : Binary.Format FilledBlock :=
  (Block.binary.pair (Transaction.binary.list.pair .unit)).map ofParts parts

end FilledBlock

end WatchWallet
