import WatchWallet.Json.Format
import WatchWallet.Record.Basic

/-!
# Explorer — Served

The shapes in which an explorer serves blocks and transactions as JSON, and the records they stand
for.  Most members may be missing; each has a value that stands for it then.
-/

namespace WatchWallet

/-- A block as it is served. -/
structure ServedBlock where
  hash : String
  height : UInt32
  time : Instant
deriving DecidableEq

namespace ServedBlock

/-- The members as nested pairs. -/
def parts (b : ServedBlock) : String × UInt32 × Instant × Unit :=
  (b.hash, b.height, b.time, ())

/-- The value with these members. -/
def ofParts : String × UInt32 × Instant × Unit → ServedBlock
  | (hash, height, time, ()) => ⟨hash, height, time⟩

/-- The JSON form. -/
def json : Json.Format ServedBlock :=
  Json.Members.format (.cons ⟨"hash", .text, .required, []⟩
    (.cons ⟨"height", .uint32, .required, []⟩
    (.cons ⟨"time", .instant, .required, []⟩ .nil))) "ExplorerBlock" ofParts parts

/-- The block that is meant. -/
def record (b : ServedBlock) : Block :=
  ⟨b.hash, b.height, b.time⟩

end ServedBlock

/-- What a transaction spends, as it is served. -/
structure ServedInput where
  index : UInt64
  value : Option Amount
  outputHash : Option String
  outputIndex : Option UInt32
  address : Option String
  signatureScript : Option String
  coinbase : Option String
  sequence : UInt32
deriving DecidableEq

namespace ServedInput

/-- The members as nested pairs. -/
def parts (i : ServedInput) : UInt64 × Option Amount × Option String × Option UInt32 ×
    Option String × Option String × Option String × UInt32 × Unit :=
  (i.index, i.value, i.outputHash, i.outputIndex, i.address, i.signatureScript, i.coinbase,
    i.sequence, ())

/-- The value with these members. -/
def ofParts : UInt64 × Option Amount × Option String × Option UInt32 × Option String ×
    Option String × Option String × UInt32 × Unit → ServedInput
  | (index, value, outputHash, outputIndex, address, signatureScript, coinbase, sequence, ()) =>
    ⟨index, value, outputHash, outputIndex, address, signatureScript, coinbase, sequence⟩

/-- The JSON form. -/
def json : Json.Format ServedInput :=
  Json.Members.format (.cons ⟨"input_index", .uint64, .required, []⟩
    (.cons ⟨"value", .option .amount, .defaulted none, []⟩
    (.cons ⟨"output_hash", .option .text, .defaulted none, []⟩
    (.cons ⟨"output_index", .option .uint32, .defaulted none, []⟩
    (.cons ⟨"address", .option .text, .defaulted none, []⟩
    (.cons ⟨"script_signature", .option .text, .defaulted none, []⟩
    (.cons ⟨"coinbase", .option .text, .defaulted none, []⟩
    (.cons ⟨"sequence", .uint32, .defaulted 0xFFFFFFFF, []⟩ .nil))))))))
    "ExplorerInput" ofParts parts

/-- The input that is meant. -/
def record (i : ServedInput) : Input where
  index := i.index
  value := i.value
  previousHash := i.outputHash
  previousIndex := i.outputIndex
  address := i.address
  signatureScript := i.signatureScript
  coinbase := i.coinbase
  sequence := i.sequence

end ServedInput

/-- What a transaction pays, as it is served. -/
structure ServedOutput where
  index : UInt64
  value : Amount
  address : Option String
  script : String
deriving DecidableEq

namespace ServedOutput

/-- The members as nested pairs. -/
def parts (o : ServedOutput) : UInt64 × Amount × Option String × String × Unit :=
  (o.index, o.value, o.address, o.script, ())

/-- The value with these members. -/
def ofParts : UInt64 × Amount × Option String × String × Unit → ServedOutput
  | (index, value, address, script, ()) => ⟨index, value, address, script⟩

/-- The JSON form. -/
def json : Json.Format ServedOutput :=
  Json.Members.format (.cons ⟨"output_index", .uint64, .required, []⟩
    (.cons ⟨"value", .amount, .required, []⟩
    (.cons ⟨"address", .option .text, .defaulted none, []⟩
    (.cons ⟨"script_hex", .text, .defaulted "", []⟩ .nil)))) "ExplorerOutput" ofParts parts

/-- The output that is meant, in the transaction with this hash. -/
def record (o : ServedOutput) (hash : String) (receivedAt : Instant) : Output where
  index := o.index
  transactionHash := hash
  value := o.value
  address := o.address
  script := o.script
  time := receivedAt.toOffsetText

end ServedOutput

/-- A transaction as it is served. -/
structure ServedTransaction where
  hash : String
  receivedAt : Instant
  lockTime : UInt64
  block : Option ServedBlock
  inputs : List ServedInput
  outputs : List ServedOutput
  fees : Option Amount
  confirmations : UInt64
deriving DecidableEq

namespace ServedTransaction

/-- The members as nested pairs. -/
def parts (t : ServedTransaction) : String × Instant × UInt64 × Option ServedBlock ×
    List ServedInput × List ServedOutput × Option Amount × UInt64 × Unit :=
  (t.hash, t.receivedAt, t.lockTime, t.block, t.inputs, t.outputs, t.fees, t.confirmations, ())

/-- The value with these members. -/
def ofParts : String × Instant × UInt64 × Option ServedBlock × List ServedInput ×
    List ServedOutput × Option Amount × UInt64 × Unit → ServedTransaction
  | (hash, receivedAt, lockTime, block, inputs, outputs, fees, confirmations, ()) =>
    ⟨hash, receivedAt, lockTime, block, inputs, outputs, fees, confirmations⟩

/-- The JSON form. -/
def json : Json.Format ServedTransaction :=
  Json.Members.format (.cons ⟨"hash", .text, .required, []⟩
    (.cons ⟨"received_at", .instant, .required, []⟩
    (.cons ⟨"lock_time", .uint64, .defaulted 0, []⟩
    (.cons ⟨"block", .option ServedBlock.json, .defaulted none, []⟩
    (.cons ⟨"inputs", .list ServedInput.json, .defaulted [], []⟩
    (.cons ⟨"outputs", .list ServedOutput.json, .defaulted [], []⟩
    (.cons ⟨"fees", .option .amount, .defaulted none, []⟩
    (.cons ⟨"confirmations", .uint64, .defaulted 0, []⟩ .nil))))))))
    "ExplorerTransaction" ofParts parts

/-- The transaction that is meant. -/
def record (t : ServedTransaction) : Transaction where
  version := 1
  hash := t.hash
  receivedAt := t.receivedAt
  lockTime := t.lockTime
  block := t.block.map (·.record)
  inputs := t.inputs.map (·.record)
  outputs := t.outputs.map (·.record t.hash t.receivedAt)
  fees := t.fees
  confirmations := t.confirmations

end ServedTransaction

/-- An answer about transactions as it is served. -/
structure ServedAnswer where
  truncated : Bool
  transactions : List ServedTransaction
deriving DecidableEq

namespace ServedAnswer

/-- The members as nested pairs. -/
def parts (a : ServedAnswer) : Bool × List ServedTransaction × Unit :=
  (a.truncated, a.transactions, ())

/-- The value with these members. -/
def ofParts : Bool × List ServedTransaction × Unit → ServedAnswer
  | (truncated, transactions, ()) => ⟨truncated, transactions⟩

/-- The JSON form. -/
def json : Json.Format ServedAnswer :=
  Json.Members.format (.cons ⟨"truncated", .bool, .defaulted false, []⟩
    (.cons ⟨"txs", .list ServedTransaction.json, .required, []⟩ .nil))
    "TransactionsResponse" ofParts parts

/-- The transactions that are meant. -/
def records (a : ServedAnswer) : List Transaction :=
  a.transactions.map (·.record)

end ServedAnswer
end WatchWallet
