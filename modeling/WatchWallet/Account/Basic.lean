import WatchWallet.Store.CheckpointStore
import WatchWallet.Window.Synchronize

/-!
# Account — Basic

An account with all that is stored of it, and actions on it that ask an explorer.  An action that
is stopped keeps what it did before.
-/

namespace WatchWallet

/-- An account and its stores. -/
structure Account where
  config : SyncConfig
  chains : Chains
  stable : BlockStore
  unstable : BlockStore
  /-- The unconfirmed transactions. -/
  pending : List Transaction
  checkpoints : CheckpointStore
  disk : Disk
  journal : Journal

/-- An action on an account and an explorer with the state `σ`. -/
abbrev Action (σ : Type) := ExceptT Stop (StateM (Account × σ))

namespace Account

/-- The account as the synchronization of a window sees it. -/
def window (a : Account) (kind : WindowKind) : Window where
  kind := kind
  chains := a.chains
  store := match kind with
    | .stable => a.stable
    | .unstable => a.unstable
  disk := a.disk
  journal := a.journal

/-- The account after the synchronization of a window. -/
def ofWindow (a : Account) (w : Window) : Account :=
  let stored := match w.kind with
    | .stable => { a with stable := w.store }
    | .unstable => { a with unstable := w.store }
  { stored with chains := w.chains, disk := w.disk, journal := w.journal }

/-- Every transaction of the account: the stable ones, the unstable ones, the unconfirmed ones. -/
def transactions (a : Account) : List Transaction :=
  (a.stable.blocks.toList ++ a.unstable.blocks.toList).flatMap (·.transactions) ++ a.pending

end Account

namespace Action

variable {σ α : Type}

/-- What an action comes to, with the account and the explorer after it. -/
def perform (action : Action σ α) (a : Account) (s : σ) : Except Stop α × Account × σ :=
  (ExceptT.run action).run (a, s)

/-- Gives a result, or fails. -/
def ofResult (result : Except SyncError α) : Action σ α :=
  liftExcept (result.mapError Stop.failed)

/-- Changes the account. -/
def change (f : Account → Account) : Action σ Unit :=
  modify fun (a, s) => (f a, s)

/-- Tells an event. -/
def dispatch (e : Event) : Action σ Unit :=
  change fun a => { a with journal := a.journal ++ [.event e] }

/-- Sends a request to the explorer and waits for its answer. -/
def ask (explorer : Explorer σ) (request : σ → Except ExplorerError α × σ) : Action σ α := do
  let (a, s) ← get
  let (answer, s) := request (explorer.delay s).2
  set (a, s)
  ofResult (answer.mapError SyncError.explorer)

/-- Synchronizes a window. -/
def synchronizeWindow (explorer : Explorer σ) (kind : WindowKind) (start : String) (lo hi : Nat) :
    Action σ WindowStats := do
  let (a, s) ← get
  let (result, w, s) := (a.window kind).synchronize explorer a.config (some start) lo hi s
  set (a.ofWindow w, s)
  liftExcept result

end Action
end WatchWallet
