import WatchWallet.Amount.Basic
import WatchWallet.Instant.Basic

/-!
# Record — Basic

The records of a chain that a wallet keeps: blocks, transactions with their inputs and outputs, and
blocks filled with the transactions of the wallet.  A transaction without a block is unconfirmed.
-/

namespace WatchWallet

/-- The header of a block. -/
structure Block where
  hash : String
  height : UInt32
  createdAt : Instant
deriving DecidableEq, Inhabited

/-- What a transaction spends. -/
structure Input where
  index : UInt64 := 0
  value : Option Amount := none
  previousHash : Option String := none
  previousIndex : Option UInt32 := none
  address : Option String := none
  signatureScript : Option String := none
  coinbase : Option String := none
  /-- The greatest sequence number marks an input as final. -/
  sequence : UInt32 := 0xFFFFFFFF
deriving DecidableEq, Inhabited

/-- What a transaction pays. -/
structure Output where
  index : UInt64 := 0
  transactionHash : String := ""
  value : Amount := Amount.zero
  address : Option String := none
  script : String := ""
  time : String := ""
deriving DecidableEq, Inhabited

/-- A transaction. -/
structure Transaction where
  version : UInt32 := 1
  hash : String := ""
  receivedAt : Instant := Instant.epoch
  lockTime : UInt64 := 0
  /-- The block that holds the transaction; none while it is unconfirmed. -/
  block : Option Block := none
  inputs : List Input := []
  outputs : List Output := []
  fees : Option Amount := none
  confirmations : UInt64 := 1
deriving DecidableEq, Inhabited

/-- A block with the transactions of the wallet that it holds. -/
structure FilledBlock where
  header : Block
  transactions : List Transaction
deriving DecidableEq, Inhabited

namespace Transaction

/-- The height of the block that holds the transaction. -/
def height? (tx : Transaction) : Option Nat :=
  tx.block.map (·.height.toNat)

/-- The addresses that the transaction pays, in the order of its outputs. -/
def paidAddresses (tx : Transaction) : List String :=
  tx.outputs.filterMap (·.address)

/-- Whether the transaction pays one of the addresses or spends from one. -/
def touches (addresses : List String) (tx : Transaction) : Bool :=
  (tx.paidAddresses ++ tx.inputs.filterMap (·.address)).any addresses.contains

end Transaction

/-- The height of a filled block is the height of its header. -/
def FilledBlock.height (b : FilledBlock) : Nat :=
  b.header.height.toNat

end WatchWallet
