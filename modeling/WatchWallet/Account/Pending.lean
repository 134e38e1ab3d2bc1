import WatchWallet.Account.Basic

/-!
# Account — Pending

The unconfirmed transactions of an account: those that touch its used addresses and the gap after
them.  The requests go out together; their answers count in the order of the requests.
-/

namespace WatchWallet

namespace Pending

/-- The first of the transactions with each hash. -/
def firstByHash (txs : List Transaction) : List Transaction :=
  txs.foldl (fun kept tx => if kept.any (·.hash == tx.hash) then kept else kept ++ [tx]) []

/-- The unconfirmed transactions among these, each once. -/
def select (txs : List Transaction) : List Transaction :=
  firstByHash (txs.filter (·.block.isNone))

/-- The addresses to ask about: the used ones of each chain and the gap after them. -/
def addresses (a : Account) : List String :=
  [Chain.receive, Chain.change].flatMap fun chain =>
    let keychain := a.chains.get chain
    keychain.range 0 (keychain.used + a.config.gapSize.toNat)

/-- The addresses cut into parts of a positive size, with the number of each part. -/
def parts (size : Nat) (addresses : List String) : List (Nat × List String) :=
  (List.range ((addresses.length + size - 1) / size)).map fun i =>
    (i, (addresses.drop (i * size)).take size)

variable {σ : Type}

/-- The explorer at the service of the requests; the answers are kept with the numbers of their
parts. -/
def service (explorer : Explorer σ) :
    Schedule.Service σ (Nat × List String) (List (Nat × List Transaction)) Stop where
  delay := explorer.delay
  answer part answers s :=
    match explorer.pending part.2 s with
    | (.error e, s) => (.error (.failed (.explorer e)), s)
    | (.ok txs, s) => (.ok ((part.1, txs) :: answers, []), s)
  cost _ := 1
  cost_pos _ := Nat.one_pos
  cost_answer h := by
    split at h
    · simp at h
    · simp only [Prod.mk.injEq, Except.ok.injEq] at h
      obtain ⟨⟨-, rfl⟩, -⟩ := h
      exact Nat.one_pos

/-- The answers in the order of the parts. -/
def inOrder (parts : List (Nat × List String)) (answers : List (Nat × List Transaction)) :
    List Transaction :=
  parts.flatMap fun part => (answers.lookup part.1).getD []

end Pending

namespace Action

variable {σ : Type}

/-- Asks for the transactions that touch the addresses, in parts. -/
def askPending (explorer : Explorer σ) (parts : List (Nat × List String)) :
    Action σ (List Transaction) := do
  let (a, s) ← get
  let (joined, answers, s) := Schedule.runAll (Pending.service explorer) parts [] s
  set (a, s)
  liftExcept joined
  return Pending.inOrder parts answers

/-- Replaces the unconfirmed transactions by those that the explorer has now, and marks what they
pay; gives their number. -/
def refreshPending (explorer : Explorer σ) : Action σ Nat := do
  let (a, _) ← get
  let parts := Pending.parts a.config.batchSize.toNat (Pending.addresses a)
  -- nothing is changed before all requests have succeeded
  let pending := Pending.select (← askPending explorer parts)
  change fun a => { a with
    pending
    chains := (pending.flatMap (·.paidAddresses)).foldl Chains.mark a.chains }
  dispatch (.pendingUpdated pending.length)
  return pending.length

end Action
end WatchWallet
