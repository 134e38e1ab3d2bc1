import WatchWallet.Explorer.Basic

/-!
# Explorer — Simulated

An explorer over a chain of its own, to try a wallet on.  Its blocks are ten minutes apart and named
for their heights.  It can be slow, fail, lack blocks, or follow a script instead of its chain; it
keeps a log of what it was asked.
-/

namespace WatchWallet

/-- What an explorer was asked for. -/
inductive Request where
  | transactions (addresses : List String) (start : Option String)
  | tip
  | block (height : Nat)
  | pending (addresses : List String)
deriving DecidableEq

/-- The kinds of requests. -/
inductive RequestKind where
  | transactions
  | tip
  | block
  | pending
deriving DecidableEq

/-- The state of a simulated explorer. -/
structure Simulation where
  tip : Nat
  /-- The greatest number of transactions in an answer. -/
  pageSize : Nat
  /-- The transactions of the chain. -/
  transactions : List Transaction
  /-- The unconfirmed transactions. -/
  pending : List Transaction
  /-- The next answers about transactions, in place of those of the chain. -/
  script : List (Except ExplorerError Answer)
  /-- The delays of the next requests; later ones have none. -/
  turns : List Nat
  /-- The heights whose blocks are not found. -/
  missing : List Nat
  /-- The heights of blocks with names of their own. -/
  known : List (String × Nat)
  /-- The requests that fail always. -/
  failing : List RequestKind
  /-- The requests about transactions that fail, by number. -/
  failingCalls : List Nat
  /-- The number of requests about transactions so far. -/
  calls : Nat
  log : List Request

namespace Simulation

/-- The name of the block at a height ends in the height. -/
def nameStart : List Char := "block-".toList

/-- The name of the block at a height. -/
def blockName (height : Nat) : String :=
  String.ofList (nameStart ++ Text.digits height)

/-- The time of the block at a height: ten minutes for each block since the summer of 2017. -/
def blockTime (height : Nat) : Instant :=
  (Instant.ofUnixSeconds? (1500000000 + 600 * height)).getD Instant.epoch

/-- A block with a name and a height. -/
def block (name : String) (height : UInt32) : Block :=
  ⟨name, height, blockTime height.toNat⟩

/-- The block of the chain at a height. -/
def blockAt (height : Nat) : Block :=
  block (blockName height) height.toUInt32

/-- The height in the name of a block. -/
def namedHeight? (name : String) : Option Nat :=
  let cs := name.toList
  if nameStart.isPrefixOf cs then Text.uint32? (cs.drop nameStart.length) else none

/-- The height at which a request starts. -/
def startHeight? (s : Simulation) : Option String → Option Nat
  | none => some 0
  | some name =>
    match (s.known.lookup name).orElse fun _ => namedHeight? name with
    | some height => if height ≤ s.tip then some height else none
    | none => none

/-- The transactions of the chain from a height on that touch one of the addresses, by height. -/
def found (s : Simulation) (addresses : List String) (start : Nat) : List Transaction :=
  (s.transactions.filter fun tx =>
    tx.height?.any (fun h => start ≤ h && h ≤ s.tip) && tx.touches addresses).mergeSort
      fun a b => a.height?.getD 0 ≤ b.height?.getD 0

/-- The answer of the chain, cut at the page size. -/
def answer (s : Simulation) (addresses : List String) (start : Option String) :
    Except ExplorerError Answer :=
  match s.startHeight? start with
  | none => .error (.blockNotFound (start.getD ""))
  | some height =>
    let txs := s.found addresses height
    .ok ⟨txs.take s.pageSize, s.pageSize < txs.length⟩

/-- An explorer over a chain that never fails. -/
def ofChain (tip pageSize : Nat) (transactions pending : List Transaction) : Simulation where
  tip := tip
  pageSize := pageSize
  transactions := transactions
  pending := pending
  script := []
  turns := []
  missing := []
  known := []
  failing := []
  failingCalls := []
  calls := 0
  log := []

/-- Keeps a request in the log. -/
def note (s : Simulation) (r : Request) : Simulation :=
  { s with log := s.log ++ [r] }

/-- What a request comes to when the explorer fails. -/
def reset {α : Type} : Except ExplorerError α :=
  .error (.transport "connection reset")

/-- Answers a request about transactions. -/
def askTransactions (addresses : List String) (start : Option String) (s : Simulation) :
    Except ExplorerError Answer × Simulation :=
  let called := { s.note (.transactions addresses start) with calls := s.calls + 1 }
  if s.failing.contains .transactions || s.failingCalls.contains s.calls then (reset, called)
  else
    match s.script with
    | a :: rest => (a, { called with script := rest })
    | [] => (s.answer addresses start, called)

/-- Answers a request for the tip. -/
def askTip (s : Simulation) : Except ExplorerError Block × Simulation :=
  (if s.failing.contains .tip then reset else .ok (blockAt s.tip), s.note .tip)

/-- Answers a request for a block. -/
def askBlock (height : Nat) (s : Simulation) : Except ExplorerError (Option Block) × Simulation :=
  (if s.failing.contains .block then reset
    else if s.tip < height ∨ s.missing.contains height then .ok none
    else .ok (some (blockAt height)), s.note (.block height))

/-- Answers a request for unconfirmed transactions. -/
def askPending (addresses : List String) (s : Simulation) :
    Except ExplorerError (List Transaction) × Simulation :=
  (if s.failing.contains .pending then reset
    else .ok (s.pending.filter (·.touches addresses)), s.note (.pending addresses))

/-- The delay of the next request. -/
def takeTurn (s : Simulation) : Nat × Simulation :=
  match s.turns with
  | [] => (0, s)
  | t :: ts => (t, { s with turns := ts })

/-- A simulation as an explorer. -/
def explorer : Explorer Simulation where
  delay := takeTurn
  transactions := askTransactions
  tip := askTip
  block := askBlock
  pending := askPending

end Simulation
end WatchWallet
