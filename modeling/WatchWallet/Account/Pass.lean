import WatchWallet.Account.Pending
import WatchWallet.Window.Split

/-!
# Account — Pass

One synchronization of an account.  The stable window continues after the checkpoint and moves it;
the unstable window is rebuilt from nothing; then the unconfirmed transactions are refreshed.  A
failure ends the pass and leaves the checkpoint at the last height whose window was complete.  Heights
have 32 bits, so there is none after the last checkpoint that can be saved.
-/

namespace WatchWallet.Action

variable {σ : Type}

/-- The hash of the block at a height. -/
def blockHashAt (explorer : Explorer σ) (height : Nat) : Action σ String := do
  if height = 0 then
    return (← get).1.config.genesisHash
  else
    match ← ask explorer (explorer.block height) with
    | some block => return block.hash
    | none =>
      throw (.failed (.explorer (.blockNotFound ("height " ++ String.ofList (Text.digits height)))))

/-- The last checkpoint. -/
def loadCheckpoint : Action σ (Option Checkpoint) := do
  let (a, _) ← get
  ofResult (a.checkpoints.load a.disk)

/-- Saves a checkpoint. -/
def saveCheckpoint (c : Checkpoint) : Action σ Unit := do
  let (a, s) ← get
  let (result, checkpoints, disk) := a.checkpoints.save c a.disk
  set ({ a with checkpoints, disk }, s)
  ofResult result

/-- Where the stable window starts without a checkpoint: at the last stored block, which is read
again, or at the first block of the chain. -/
def storedStart (a : Account) : String × Nat :=
  match a.stable.blocks.last? with
  | some block => (block.hash, block.height.toNat)
  | none => (a.config.genesisHash, 0)

/-- Scans the stable window through the height `hi` and moves the checkpoint there. -/
def scanStable (explorer : Explorer σ) (now : Instant) (start : String) (lo hi : Nat) :
    Action σ WindowStats := do
  let stats ← synchronizeWindow explorer .stable start lo hi
  let hash ← blockHashAt explorer hi
  saveCheckpoint ⟨hi.toUInt32, hash, now⟩
  return stats

/-- The height after a checkpoint, which has to be a number of 32 bits. -/
def heightAfter (c : Checkpoint) : Action σ Nat :=
  if c.height.toNat + 1 < UInt32.size then return c.height.toNat + 1 else throw .overflow

/-- Synchronizes the stable window through the height `hi`, from the checkpoint on. -/
def synchronizeStable (explorer : Explorer σ) (now : Instant) (hi : Nat) :
    Action σ WindowStats := do
  match ← loadCheckpoint with
  | some checkpoint =>
    let lo ← heightAfter checkpoint
    if hi < lo then
      return .idle lo hi
    else
      scanStable explorer now (← blockHashAt explorer lo) lo hi
  | none =>
    -- a pass may have stored blocks and ended before its checkpoint
    let (start, lo) := storedStart (← get).1
    scanStable explorer now start lo hi

/-- Removes every unstable block. -/
def clearUnstable : Action σ Unit := do
  let (a, s) ← get
  let (result, unstable, disk) := a.unstable.removeFrom 0 a.disk
  let cleared := { a with unstable, disk, journal := a.journal ++ [Act.removedFrom .unstable 0] }
  set (cleared, s)
  ofResult result

/-- Rebuilds the unstable window from the height `lo` to the tip. -/
def rebuildUnstable (explorer : Explorer σ) (lo tip : Nat) : Action σ WindowStats := do
  clearUnstable
  let start ← blockHashAt explorer lo
  synchronizeWindow explorer .unstable start lo tip

/-- The steps of a pass. -/
def synchronizeAll (explorer : Explorer σ) (now : Instant) : Action σ SyncStats := do
  let tip := (← ask explorer explorer.tip).height.toNat
  dispatch (.syncStarted tip)
  let split := Split.ofTip tip (← get).1.config.unstableDepth.toNat
  let stable ← split.stableTo.mapM (synchronizeStable explorer now)
  let unstable ← split.unstableFrom.mapM (rebuildUnstable explorer · tip)
  let pending ← refreshPending explorer
  return { tip, stable, unstable, pending }

/-- What is still done when a pass is stopped: a failure is told, after an overflow nothing is. -/
def conclude : Stop → Action σ Unit
  | .failed e => dispatch (.syncFailed e.message)
  | .overflow => return ()

/-- A pass.  Unless it overflows, its outcome is told in a last event. -/
def synchronize (explorer : Explorer σ) (now : Instant) : Action σ SyncStats := do
  try
    let stats ← synchronizeAll explorer now
    dispatch (.syncCompleted stats.tip)
    pure stats
  catch stop =>
    conclude stop
    throw stop

end WatchWallet.Action
