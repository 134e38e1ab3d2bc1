import WatchWallet.Proofs.Account.Course
import WatchWallet.Proofs.Account.Pending
import WatchWallet.Proofs.Window.Accounting

/-!
# Account — Record

A pass with a record of the requests about transactions (`Pass.recorded`).  The record changes nothing
else: an action with the recording explorer comes to the same, and leaves the same account
(`Action.Erases`).  So what is recorded is what is asked in the pass itself, through its stable window and
after it (`Pass.exchanges`).
-/

namespace WatchWallet

namespace Action

variable {σ α β : Type}

/-- Without the record, the first action is the second one. -/
def Erases (y : Action (σ × List Exchange) α) (x : Action σ α) : Prop :=
  ∀ a s, Prod.map id (Prod.map id Prod.fst) (y.perform a s) = x.perform a s.1

namespace Erases

theorem pure (v : α) : Erases (Pure.pure v : Action (σ × List Exchange) α) (Pure.pure v) :=
  fun _ _ => rfl

theorem throw (e : Stop) :
    Erases (MonadExcept.throw e : Action (σ × List Exchange) α) (MonadExcept.throw e) :=
  fun _ _ => rfl

theorem bind {y : Action (σ × List Exchange) α} {x : Action σ α}
    {g : α → Action (σ × List Exchange) β} {f : α → Action σ β} (hy : Erases y x)
    (hg : ∀ v, Erases (g v) (f v)) : Erases (y >>= g) (x >>= f) := by
  intro a s
  rw [perform_bind, perform_bind, ← hy]
  rcases y.perform a s with ⟨e | v, a', s'⟩
  · rfl
  · exact hg v a' s'

/-- Actions that start by looking at the account. -/
theorem get_bind {g : Account × σ × List Exchange → Action (σ × List Exchange) β}
    {f : Account × σ → Action σ β} (hg : ∀ a s, Erases (g (a, s)) (f (a, s.1))) :
    Erases (get >>= g) (get >>= f) :=
  fun a s => hg a s a s

theorem tryCatch {y : Action (σ × List Exchange) α} {x : Action σ α}
    {g : Stop → Action (σ × List Exchange) α} {f : Stop → Action σ α} (hy : Erases y x)
    (hg : ∀ e, Erases (g e) (f e)) :
    Erases (MonadExcept.tryCatch y g) (MonadExcept.tryCatch x f) := by
  intro a s
  rw [perform_tryCatch, perform_tryCatch, ← hy]
  rcases y.perform a s with ⟨e | v, a', s'⟩
  · exact hg e a' s'
  · rfl

theorem change (f : Account → Account) :
    Erases (Action.change f : Action (σ × List Exchange) Unit) (Action.change f) :=
  fun _ _ => rfl

theorem optionMapM {g : β → Action (σ × List Exchange) α} {f : β → Action σ α} (o : Option β)
    (hg : ∀ v, Erases (g v) (f v)) : Erases (o.mapM g) (o.mapM f) := by
  cases o with
  | none => exact pure none
  | some v =>
      rw [Option.mapM_some, Option.mapM_some, map_eq_pure_bind, map_eq_pure_bind]
      exact (hg v).bind fun v => pure (some v)

/-! ### The steps of a pass -/

variable (explorer : Explorer σ) (now : Instant)

theorem ask_tip : Erases (ask explorer.recorded explorer.recorded.tip) (ask explorer explorer.tip) := by
  intro a s
  rw [perform_ask, perform_ask]
  rfl

theorem ask_block (h : Nat) :
    Erases (ask explorer.recorded (explorer.recorded.block h)) (ask explorer (explorer.block h)) := by
  intro a s
  rw [perform_ask, perform_ask]
  rfl

theorem loadCheckpoint :
    Erases (Action.loadCheckpoint : Action (σ × List Exchange) _) Action.loadCheckpoint := by
  intro a s
  rw [perform_loadCheckpoint, perform_loadCheckpoint]
  rfl

theorem saveCheckpoint (c : Checkpoint) :
    Erases (Action.saveCheckpoint c : Action (σ × List Exchange) _) (Action.saveCheckpoint c) := by
  intro a s
  rw [perform_saveCheckpoint, perform_saveCheckpoint]
  rfl

theorem heightAfter (c : Checkpoint) :
    Erases (Action.heightAfter c : Action (σ × List Exchange) _) (Action.heightAfter c) := by
  unfold Action.heightAfter
  split
  · exact pure _
  · exact throw _

theorem clearUnstable :
    Erases (Action.clearUnstable : Action (σ × List Exchange) _) Action.clearUnstable := by
  intro a s
  rw [perform_clearUnstable, perform_clearUnstable]
  rfl

theorem blockHashAt (h : Nat) :
    Erases (Action.blockHashAt explorer.recorded h) (Action.blockHashAt explorer h) := by
  unfold Action.blockHashAt
  split
  · exact get_bind fun a s => pure _
  · refine (ask_block explorer h).bind fun found => ?_
    cases found with
    | none => exact throw _
    | some block => exact pure _

theorem synchronizeWindow (kind : WindowKind) (start : String) (lo hi : Nat) :
    Erases (Action.synchronizeWindow explorer.recorded kind start lo hi)
      (Action.synchronizeWindow explorer kind start lo hi) := by
  intro a s
  rw [perform_synchronizeWindow, perform_synchronizeWindow,
    ← (a.window kind).synchronize_recorded explorer a.config (some start) lo hi s.1 s.2]
  rfl

theorem scanStable (start : String) (lo hi : Nat) :
    Erases (Action.scanStable explorer.recorded now start lo hi)
      (Action.scanStable explorer now start lo hi) := by
  refine (synchronizeWindow explorer .stable start lo hi).bind fun stats => ?_
  refine (blockHashAt explorer hi).bind fun hash => ?_
  exact (saveCheckpoint _).bind fun _ => pure stats

theorem synchronizeStable (hi : Nat) :
    Erases (Action.synchronizeStable explorer.recorded now hi)
      (Action.synchronizeStable explorer now hi) := by
  refine loadCheckpoint.bind fun saved => ?_
  cases saved with
  | none => exact get_bind fun a s => scanStable explorer now _ _ hi
  | some checkpoint =>
      refine (heightAfter checkpoint).bind fun lo => ?_
      split
      · exact pure _
      · exact (blockHashAt explorer _).bind fun hash => scanStable explorer now hash _ hi

theorem rebuildUnstable (lo tip : Nat) : Erases (Action.rebuildUnstable explorer.recorded lo tip)
    (Action.rebuildUnstable explorer lo tip) := by
  refine clearUnstable.bind fun _ => ?_
  exact (blockHashAt explorer lo).bind fun start => synchronizeWindow explorer .unstable start lo tip

theorem askPending (parts : List (Nat × List String)) :
    Erases (Action.askPending explorer.recorded parts) (Action.askPending explorer parts) :=
  perform_askPending_sim explorer explorer.recorded Prod.fst (fun _ => rfl) (fun _ _ => rfl) parts

theorem refreshPending :
    Erases (Action.refreshPending explorer.recorded) (Action.refreshPending explorer) := by
  refine get_bind fun a s => (askPending explorer _).bind fun txs => ?_
  exact (change _).bind fun _ => (change _).bind fun _ => pure _

theorem synchronizeAll :
    Erases (Action.synchronizeAll explorer.recorded now) (Action.synchronizeAll explorer now) := by
  refine (ask_tip explorer).bind fun tip => (change _).bind fun _ => get_bind fun a s => ?_
  refine (optionMapM _ fun hi => synchronizeStable explorer now hi).bind fun stable => ?_
  refine (optionMapM _ fun lo => rebuildUnstable explorer lo _).bind fun unstable => ?_
  exact (refreshPending explorer).bind fun pending => pure _

theorem conclude (stop : Stop) :
    Erases (Action.conclude stop : Action (σ × List Exchange) _) (Action.conclude stop) := by
  cases stop with
  | failed e => exact change _
  | overflow => exact pure ()

theorem synchronize :
    Erases (Action.synchronize explorer.recorded now) (Action.synchronize explorer now) := by
  refine tryCatch ((synchronizeAll explorer now).bind fun stats => ?_) fun e => ?_
  · exact (change _).bind fun _ => pure stats
  · exact (conclude e).bind fun _ => throw e

end Erases

/-- A pass through its stable window: the height of the tip, the number of heights below it that may still
be replaced, and what the window comes to. -/
def throughStable (explorer : Explorer σ) (now : Instant) : Action σ (Nat × Nat × Option WindowStats) := do
  let tip := (← ask explorer explorer.tip).height.toNat
  dispatch (.syncStarted tip)
  let depth := (← get).1.config.unstableDepth.toNat
  let stable ← (Split.ofTip tip depth).stableTo.mapM (synchronizeStable explorer now)
  return (tip, depth, stable)

/-- The steps of a pass go through its stable window and on from there. -/
theorem synchronizeAll_eq (explorer : Explorer σ) (now : Instant) : synchronizeAll explorer now =
    throughStable explorer now >>= fun (tip, depth, stable) => finish explorer tip depth stable := by
  simp only [synchronizeAll, throughStable, finish, bind_assoc, pure_bind]

end Action

namespace Pass

variable (p : Pass)

/-- The same pass, with a record of the requests about transactions and the replies to them. -/
def recorded : Pass := ⟨p.σ × List Exchange, p.explorer.recorded, (p.state, []), p.now, p.account⟩

/-- The record changes nothing else. -/
theorem performed_recorded : Prod.map id (Prod.map id Prod.fst) p.recorded.performed = p.performed :=
  Action.Erases.synchronize p.explorer p.now p.account (p.state, [])

theorem outcome_recorded : p.recorded.outcome = p.outcome := congrArg (·.1) p.performed_recorded

theorem after_recorded : p.recorded.after = p.after := congrArg (·.2.1) p.performed_recorded

/-- The requests about transactions in the pass, with the replies to them. -/
def allExchanges : List Exchange := p.recorded.performed.2.2.2

/-- Those of them through the stable window. -/
def stableExchanges : List Exchange :=
  ((Action.throughStable p.explorer.recorded p.now).perform p.account (p.state, [])).2.2.2

/-- The requests about transactions in one of the windows. -/
def exchanges : WindowKind → List Exchange
  | .stable => p.stableExchanges
  | .unstable => p.allExchanges.drop p.stableExchanges.length

end Pass
end WatchWallet
