import WatchWallet.Journal
import WatchWallet.Schedule
import WatchWallet.Store.BlockStore
import WatchWallet.Window.Buckets
import WatchWallet.Window.Cost
import WatchWallet.Window.Progress
import WatchWallet.Window.Tracker

/-!
# Window — Scan

The state that the tasks of a window share, and how an answer changes it.  A task that goes out is
registered on its heights; its answer takes in the accepted transactions, sends out the tasks that
follow, and only then reports on the heights.  So a height is complete once nothing that can still
find a transaction there is out, and its block goes to the store at that moment, a single time.
-/

namespace WatchWallet

/-- The shared state of the tasks of a window. -/
structure Scan where
  chains : Chains
  tracker : Tracker
  buckets : Buckets
  progress : Progress
  store : BlockStore
  journal : Journal

namespace Scan

/-- Changes the tracker.  The scan is taken apart first, so that the tracker has no other owner and
is changed in place. -/
def track (f : Tracker → Tracker) : Scan → Scan
  | ⟨chains, tracker, buckets, progress, store, journal⟩ =>
    ⟨chains, f tracker, buckets, progress, store, journal⟩

/-- Tasks go out. -/
def launch (s : Scan) (tasks : List Task) : Scan :=
  s.track fun tracker => tasks.foldl (fun tracker t => tracker.register t.lo t.hi) tracker

/-- Takes in transactions found with the addresses of a chain: what they pay is marked in this
chain, and they wait for the rest of their block. -/
def accept (s : Scan) (chain : Chain) (txs : List Transaction) : Scan :=
  { s with
    chains := s.chains.update chain (·.markAll (txs.flatMap (·.paidAddresses)))
    buckets := txs.foldl Buckets.add s.buckets }

/-- The block made of the transactions that wait at a height, under the header of the first. -/
def blockAt? (s : Scan) (height : Nat) : Option FilledBlock := do
  let txs := s.buckets.get height
  let header ← (← txs.head?).block
  return ⟨header, txs⟩

/-- Hands the block of a height to the store, unless nothing was found there. -/
def storeBlock (s : Scan) (kind : WindowKind) (height : Nat) : Scan :=
  let emptied := { s with buckets := s.buckets.remove height }
  match s.blockAt? height with
  | none => emptied
  | some block =>
    let count := block.transactions.length
    { emptied with
      progress := s.progress.countBlock count
      store := s.store.add block
      journal := s.journal ++ [.added kind block, .event (.blockFinalized kind height count)] }

/-- A task reports on a height; the last one to do so completes it. -/
def report (s : Scan) (kind : WindowKind) (height : Nat) : Scan :=
  if s.tracker.isLast height then
    ((s.track (·.report height)).storeBlock kind height).track (·.settle height)
  else s.track (·.report height)

/-- A task reports on the heights from `lo` to `hi`, in ascending order. -/
def reportAll (s : Scan) (kind : WindowKind) (lo hi : Nat) : Scan :=
  (List.range' lo (hi + 1 - lo)).foldl (·.report kind ·) s

/-- The state after an answer, and the tasks that follow from it.  An answer that cannot be taken in
leaves nothing: an overflow ends the program, with all that was marked and collected before it. -/
def absorb (s : Scan) (p : Plan) (t : Task) (a : Answer) : Except Stop (Scan × List Task) := do
  let finding ← t.take p a
  let tasks := t.children p finding
  let counted := { s with progress := s.progress.countRequest a.transactions.length }
  let accepted := counted.accept t.chain (t.accepted finding a)
  return ((accepted.launch tasks).reportAll p.kind t.lo t.hi, tasks)

theorem cost_absorb_lt {s s' : Scan} {p : Plan} {t : Task} {a : Answer} {tasks : List Task}
    (h : s.absorb p t a = .ok (s', tasks)) : Schedule.costOf (Task.cost p) tasks < t.cost p := by
  unfold absorb at h
  cases hf : t.take p a with
  | error e => rw [hf] at h; cases h
  | ok f =>
    rw [hf] at h
    cases h
    exact Task.cost_children_lt (Task.take_eq_ok_iff.1 hf).1

/-! ### Asking the explorer -/

variable {σ : Type}

/-- Sends a task to the explorer and takes in its answer. -/
def ask (explorer : Explorer σ) (p : Plan) (t : Task) (scan : Scan) (s : σ) :
    Except Stop (Scan × List Task) × σ :=
  match explorer.transactions t.batch.addresses t.start s with
  | (.error e, s) => (.error (.failed (.explorer e)), s)
  | (.ok a, s) => (scan.absorb p t a, s)

theorem cost_ask_lt {explorer : Explorer σ} {p : Plan} {t : Task} {scan scan' : Scan} {s s' : σ}
    {tasks : List Task} (h : ask explorer p t scan s = (.ok (scan', tasks), s')) :
    Schedule.costOf (Task.cost p) tasks < t.cost p := by
  unfold ask at h
  split at h
  · cases h
  · exact cost_absorb_lt (congrArg Prod.fst h)

/-- The explorer at the service of a window. -/
def service (explorer : Explorer σ) (p : Plan) : Schedule.Service σ Task Scan Stop where
  delay := explorer.delay
  answer := ask explorer p
  cost := Task.cost p
  cost_pos := Task.cost_pos p
  cost_answer := cost_ask_lt

end Scan
end WatchWallet
