import WatchWallet.Config.Basic
import WatchWallet.Window.Scan

/-!
# Window — Synchronize

Finding the transactions of an account between two heights.  The batches of both chains go out at
the same time; the first failure ends the scan, and what was found before it is stored and flushed
all the same.  An overflow ends everything where it happens.
-/

namespace WatchWallet

/-- What the synchronization of a window works on. -/
structure Window where
  kind : WindowKind
  chains : Chains
  store : BlockStore
  disk : Disk
  journal : Journal

namespace Window

variable {σ : Type}

/-- What stays the same during a scan. -/
def plan (w : Window) (config : SyncConfig) : Plan where
  kind := w.kind
  gap := config.gapSize.toNat
  addresses chain := (w.chains.get chain).addresses

/-- The tasks that a scan of the heights from `lo` to `hi` starts with, the receiving chain's first;
`start` is the hash of the block at the height `lo`. -/
def bootstrap (w : Window) (config : SyncConfig) (start : Option String) (lo hi : Nat) :
    List Task :=
  ([.receive, .change].flatMap fun chain =>
    (Batch.bootstrap (w.chains.get chain) config.batchSize.toNat config.gapSize.toNat).map
      fun batch => ⟨chain, batch, start, lo, hi⟩).filter Task.isLive

/-- Before any answer. -/
def scan (w : Window) (lo hi : Nat) : Scan where
  chains := w.chains
  tracker := .ofBounds lo hi
  buckets := .empty
  progress := {}
  store := w.store
  journal := w.journal

/-- Flushes the store. -/
def flush (w : Window) : Except SyncError Unit × Window :=
  let (result, store, disk) := w.store.flush w.disk
  (result, { w with store, disk, journal := w.journal ++ [.flushed w.kind] })

/-- Adds an event to the journal. -/
def dispatch (w : Window) (e : Event) : Window :=
  { w with journal := w.journal ++ [.event e] }

/-- Whether the first batches of both chains can be derived. -/
def fits (w : Window) (config : SyncConfig) : Bool :=
  [Chain.receive, Chain.change].all fun chain =>
    Batch.bootstrapFits (w.chains.get chain) config.gapSize.toNat

/-- Synchronizes the heights from `lo` to `hi`; `start` is the hash of the block at the height `lo`,
none to read the chain from its beginning.  Without heights there is nothing to do. -/
def synchronize (w : Window) (explorer : Explorer σ) (config : SyncConfig) (start : Option String)
    (lo hi : Nat) (s : σ) : Except Stop WindowStats × Window × σ :=
  if hi < lo then (.ok (.idle lo hi), w, s)
  else if !w.fits config then (.error .overflow, w, s)
  else
    let tasks := w.bootstrap config start lo hi
    let (joined, scan, s) := Schedule.runAll (Scan.service explorer (w.plan config)) tasks
      ((w.scan lo hi).launch tasks) s
    let scanned := { w with
      chains := scan.chains
      store := scan.store
      journal := scan.journal }
    match joined with
    | .error .overflow => (.error .overflow, scanned, s)
    -- what was handed over is flushed also when a task has failed
    | .error (.failed e) => (.error (.failed e), scanned.flush.2, s)
    | .ok () =>
      match scanned.flush with
      | (.error e, w) => (.error (.failed e), w, s)
      | (.ok (), w) =>
        let stats : WindowStats := { scan.progress with lo, hi }
        (.ok stats, w.dispatch (.windowCompleted w.kind lo hi stats.blocks), s)

end Window
end WatchWallet
