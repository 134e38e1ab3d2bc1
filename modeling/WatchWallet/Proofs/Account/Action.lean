import WatchWallet.Account.Pass
import WatchWallet.Proofs.Keychain.Marking

/-!
# Account — Action

How to reason about actions on an account.  An action ensures a property of its result and of the
account after it, and another of the account after a failure (`Action.Ensures`); the rules follow the
way actions are put together (`Ensures.bind`).  The lemmas `perform_…` say what each single action comes to.
-/

namespace WatchWallet.Action

variable {σ α β : Type}

/-! ### What actions come to -/

section Perform

variable (a : Account) (s : σ)

theorem perform_bind (x : Action σ α) (f : α → Action σ β) : (x >>= f).perform a s =
    match x.perform a s with
    | (.ok v, a, s) => (f v).perform a s
    | (.error e, a, s) => (.error e, a, s) := by
  unfold perform
  rw [ExceptT.run_bind, StateT.run_bind]
  show (match (ExceptT.run x).run (a, s) with | (r, t) => _) = _
  rcases (ExceptT.run x).run (a, s) with ⟨r, a', s'⟩
  cases r <;> rfl

theorem perform_tryCatch (x : Action σ α) (f : Stop → Action σ α) :
    (tryCatch x f).perform a s =
      match x.perform a s with
      | (.ok v, a, s) => (.ok v, a, s)
      | (.error e, a, s) => (f e).perform a s := by
  unfold perform ExceptT.run StateT.run
  simp only [tryCatch, tryCatchThe, MonadExceptOf.tryCatch, ExceptT.tryCatch, ExceptT.mk, bind,
    StateT.bind]
  rcases x (a, s) with ⟨r, a', s'⟩
  cases r <;> rfl

theorem perform_liftExcept (r : Except Stop α) :
    (liftExcept r : Action σ α).perform a s = (r, a, s) := by
  cases r <;> rfl

theorem perform_ofResult (r : Except SyncError α) :
    (ofResult r : Action σ α).perform a s = (r.mapError .failed, a, s) :=
  perform_liftExcept ..

theorem perform_ask (explorer : Explorer σ) (request : σ → Except ExplorerError α × σ) :
    (ask explorer request).perform a s =
      (((request (explorer.delay s).2).1.mapError SyncError.explorer).mapError .failed, a,
        (request (explorer.delay s).2).2) :=
  perform_ofResult ..

theorem perform_loadCheckpoint :
    (loadCheckpoint : Action σ _).perform a s =
      ((a.checkpoints.load a.disk).mapError .failed, a, s) :=
  perform_ofResult ..

theorem perform_saveCheckpoint (c : Checkpoint) : (saveCheckpoint c : Action σ _).perform a s =
    ((a.checkpoints.save c a.disk).1.mapError .failed,
      { a with
        checkpoints := (a.checkpoints.save c a.disk).2.1
        disk := (a.checkpoints.save c a.disk).2.2 }, s) :=
  perform_ofResult ..

theorem perform_clearUnstable : (clearUnstable : Action σ _).perform a s =
    ((a.unstable.removeFrom 0 a.disk).1.mapError .failed,
      { a with
        unstable := (a.unstable.removeFrom 0 a.disk).2.1
        disk := (a.unstable.removeFrom 0 a.disk).2.2
        journal := a.journal ++ [Act.removedFrom .unstable 0] }, s) :=
  perform_ofResult ..

theorem perform_askPending (explorer : Explorer σ) (parts : List (Nat × List String)) :
    (askPending explorer parts).perform a s =
      let done := Schedule.runAll (Pending.service explorer) parts [] s
      (done.1.map fun _ => Pending.inOrder parts done.2.1, a, done.2.2) := by
  let done := Schedule.runAll (Pending.service explorer) parts [] s
  have hask : (askPending explorer parts).perform a s =
      (liftExcept done.1 >>= fun _ => pure (Pending.inOrder parts done.2.1) : Action σ _).perform a
        done.2.2 := rfl
  rw [hask, perform_bind, perform_liftExcept]
  show _ = (done.1.map fun _ => Pending.inOrder parts done.2.1, a, done.2.2)
  rcases done with ⟨_ | _, _, _⟩ <;> rfl

theorem perform_synchronizeWindow (explorer : Explorer σ) (kind : WindowKind) (start : String)
    (lo hi : Nat) : (synchronizeWindow explorer kind start lo hi).perform a s =
      let done := (a.window kind).synchronize explorer a.config (some start) lo hi s
      (done.1, a.ofWindow done.2.1, done.2.2) :=
  perform_liftExcept ..

/-- What is left of a pass when the tip is known. -/
theorem perform_synchronizeAll {explorer : Explorer σ} {now : Instant} {tip : Block} {s' : σ}
    (htip : explorer.tip (explorer.delay s).2 = (.ok tip, s')) :
    (synchronizeAll explorer now).perform a s =
      let height := tip.height.toNat
      let split := Split.ofTip height a.config.unstableDepth.toNat
      (split.stableTo.mapM (synchronizeStable explorer now) >>= fun stable => do
        let unstable ← split.unstableFrom.mapM (rebuildUnstable explorer · height)
        let pending ← refreshPending explorer
        return { tip := height, stable, unstable, pending } : Action σ SyncStats).perform
          { a with journal := a.journal ++ [.event (.syncStarted height)] } s' := by
  rw [synchronizeAll, perform_bind, perform_ask, htip]
  rfl

/-- The height after a checkpoint, if it is a number of 32 bits. -/
theorem perform_heightAfter (c : Checkpoint) : (heightAfter c : Action σ Nat).perform a s =
    (if c.height.toNat + 1 < UInt32.size then .ok (c.height.toNat + 1) else .error .overflow, a, s) := by
  unfold heightAfter
  split <;> rfl

/-- With a checkpoint at the last height of 32 bits, there is no height after it. -/
theorem perform_synchronizeStable_of_lastHeight (explorer : Explorer σ) (now : Instant)
    {saved : Checkpoint} (hi : Nat) (hload : a.checkpoints.load a.disk = .ok (some saved))
    (hlast : saved.height.toNat + 1 = UInt32.size) :
    (synchronizeStable explorer now hi).perform a s = (.error .overflow, a, s) := by
  rw [synchronizeStable, perform_bind, perform_loadCheckpoint, hload]
  dsimp only [Except.mapError]
  rw [perform_bind, perform_heightAfter, if_neg (by omega)]

/-- What a pass tells last: its outcome, unless it overflows. -/
def lastWord : Except Stop SyncStats → Journal
  | .ok stats => [.event (.syncCompleted stats.tip)]
  | .error (.failed e) => [.event (.syncFailed e.message)]
  | .error .overflow => []

/-- A pass takes its steps, and then it tells its outcome. -/
theorem perform_synchronize (explorer : Explorer σ) (now : Instant) :
    (synchronize explorer now).perform a s =
      let done := (synchronizeAll explorer now).perform a s
      (done.1, { done.2.1 with journal := done.2.1.journal ++ lastWord done.1 }, done.2.2) := by
  show (tryCatch (synchronizeAll explorer now >>= fun stats =>
      dispatch (.syncCompleted stats.tip) >>= fun _ => pure stats)
    fun stop => conclude stop >>= fun _ => throw stop).perform a s = _
  rw [perform_tryCatch, perform_bind]
  rcases (synchronizeAll explorer now).perform a s with ⟨(_ | _) | _, b, _⟩
  · rfl
  · show (_, b, _) = (_, { b with journal := b.journal ++ [] }, _)
    rw [List.append_nil]
  · rfl

end Perform

/-! ### Rules -/

/-- From an account with a property, the action gives a result and an account as told, or it is stopped
and leaves an account as told. -/
def Ensures (P : Account → Prop) (x : Action σ α) (Q : α → Account → Prop)
    (E : Stop → Account → Prop) : Prop :=
  ∀ a s, P a → match x.perform a s with
    | (.ok v, a', _) => Q v a'
    | (.error stop, a', _) => E stop a'

/-- What a failure leaves; of an overflow nothing is told. -/
def WhenFailed (E : Account → Prop) : Stop → Account → Prop
  | .failed _ => E
  | .overflow => fun _ => True

theorem WhenFailed.of {E : Account → Prop} {stop : Stop} {a : Account} (h : E a) :
    WhenFailed E stop a := by
  cases stop with
  | failed e => exact h
  | overflow => trivial

namespace Ensures

variable {P P' : Account → Prop} {E E' : Stop → Account → Prop} {Q Q' : α → Account → Prop}

theorem of_ok {x : Action σ α} (h : Ensures P x Q E) {a a' : Account} {s s' : σ} {v : α} (ha : P a)
    (hrun : x.perform a s = (.ok v, a', s')) : Q v a' := by
  have hx := h a s ha
  rwa [hrun] at hx

theorem of_error {x : Action σ α} (h : Ensures P x Q E) {a a' : Account} {s s' : σ} {stop : Stop}
    (ha : P a) (hrun : x.perform a s = (.error stop, a', s')) : E stop a' := by
  have hx := h a s ha
  rwa [hrun] at hx

theorem mono {x : Action σ α} (h : Ensures P x Q E) (hP : ∀ a, P' a → P a)
    (hQ : ∀ v a, Q v a → Q' v a) (hE : ∀ {stop} a, E stop a → E' stop a) : Ensures P' x Q' E' := by
  intro a s ha
  have hx := h a s (hP a ha)
  rcases hrun : x.perform a s with ⟨stop | v, a', s'⟩
  · rw [hrun] at hx
    exact hE a' hx
  · rw [hrun] at hx
    exact hQ v a' hx

theorem of_eq {x : Action σ α} (h : Ensures P x Q E) {a : Account} (ha : P a) :
    Ensures (· = a) x Q E :=
  h.mono (fun _ hb => hb ▸ ha) (fun _ _ h => h) fun _ h => h

theorem failing {x : Action σ α} (h : Ensures P x Q E) (hE : ∀ {stop} a, E stop a → E' stop a) :
    Ensures P x Q E' :=
  h.mono (fun _ h => h) (fun _ _ h => h) hE

theorem pure {v : α} (h : ∀ a, P a → Q v a) : Ensures P (Pure.pure v : Action σ α) Q E :=
  fun a _ ha => h a ha

theorem throw {stop : Stop} (h : ∀ a, P a → E stop a) :
    Ensures P (MonadExcept.throw stop : Action σ α) Q E :=
  fun a _ ha => h a ha

/-- What the first action ensures is what the second one starts from; what stops it ends both. -/
theorem bind {x : Action σ α} {f : α → Action σ β} {R : β → Account → Prop}
    (hx : Ensures P x Q E) (hf : ∀ v, Ensures (Q v) (f v) R E) : Ensures P (x >>= f) R E := by
  intro a s ha
  rw [perform_bind]
  have hQ := hx a s ha
  rcases hrun : x.perform a s with ⟨e | v, a', s'⟩
  · rw [hrun] at hQ
    exact hQ
  · rw [hrun] at hQ
    exact hf v a' s' hQ

/-- An action that starts by looking at the account. -/
theorem get_bind {f : Account × σ → Action σ β} {R : β → Account → Prop}
    (hf : ∀ a s, P a → Ensures (· = a) (f (a, s)) R E) : Ensures P (get >>= f) R E :=
  fun a s ha => hf a s ha a s rfl

/-- What is known besides the account is at hand for the action. -/
theorem of_and {x : Action σ α} {p : Prop} (h : p → Ensures P x Q E) :
    Ensures (fun a => P a ∧ p) x Q E :=
  fun a s ha => h ha.2 a s ha.1

/-- An action on what there may be; without it nothing happens. -/
theorem optionMapM {o : Option β} {f : β → Action σ α} {R : Account → Prop}
    (hsome : ∀ v, o = some v → Ensures P (f v) (fun _ => R) E) (hnone : o = none → ∀ a, P a → R a) :
    Ensures P (o.mapM f) (fun _ => R) E := by
  cases o with
  | none => exact pure (hnone rfl)
  | some v =>
      rw [Option.mapM_some, map_eq_pure_bind]
      exact (hsome v rfl).bind fun _ => pure fun _ ha => ha

/-- Changing the account does not fail. -/
theorem change {f : Account → Account} {R : Unit → Account → Prop} (h : ∀ a, P a → R () (f a)) :
    Ensures P (Action.change f : Action σ Unit) R E :=
  fun a _ ha => h a ha

/-- A request leaves the account as it is. -/
theorem ask {explorer : Explorer σ} {request : σ → Except ExplorerError α × σ} {R : α → Prop}
    (h : ∀ {s v s'}, request s = (.ok v, s') → R v) :
    Ensures P (Action.ask explorer request) (fun v a => P a ∧ R v) (fun _ => P) := by
  intro a s ha
  rw [perform_ask]
  rcases hrequest : request (explorer.delay s).2 with ⟨e | v, s'⟩
  · exact ha
  · exact ⟨ha, h hrequest⟩

/-- The height after a checkpoint, if it is one, is a number of 32 bits. -/
theorem heightAfter (c : Checkpoint) : Ensures P (Action.heightAfter c : Action σ Nat)
    (fun lo a => P a ∧ lo = c.height.toNat + 1 ∧ lo < UInt32.size) (fun _ => P) := by
  intro a s ha
  rw [perform_heightAfter]
  by_cases hbound : c.height.toNat + 1 < UInt32.size
  · rw [if_pos hbound]
    exact ⟨ha, rfl, hbound⟩
  · rw [if_neg hbound]
    exact ha

/-- The unconfirmed transactions change nothing but what is noted of them and marked. -/
theorem refreshPending {explorer : Explorer σ}
    (h : ∀ {a pending chains journal}, P a → a.chains.Grows chains →
      P { a with pending, chains, journal }) :
    Ensures P (Action.refreshPending explorer) (fun _ => P) (fun _ => P) := by
  have hask : ∀ parts, Ensures P (askPending explorer parts) (fun _ => P) (fun _ => P) := by
    intro parts a s ha
    rw [perform_askPending]
    rcases Schedule.runAll (Pending.service explorer) parts [] s with ⟨_ | _, _, _⟩
    · exact ha
    · exact ha
  refine .get_bind fun a s ha => ?_
  refine ((hask _).of_eq ha).bind fun txs => ?_
  refine (Ensures.change (R := fun _ => P) fun b hb => h hb (Chains.grows_markAll _ _)).bind fun _ => ?_
  refine (Ensures.change (R := fun _ => P) fun b hb => h hb (Chains.Grows.refl _)).bind fun _ => ?_
  exact .pure fun b hb => hb

/-- What the steps of a pass ensure is ensured by the pass, if the journal makes no difference. -/
theorem synchronize {explorer : Explorer σ} {now : Instant} {Q : SyncStats → Account → Prop}
    (h : Ensures P (synchronizeAll explorer now) Q E)
    (hQ : ∀ {v b} acts, Q v b → Q v { b with journal := b.journal ++ acts })
    (hE : ∀ {stop b} acts, E stop b → E stop { b with journal := b.journal ++ acts }) :
    Ensures P (Action.synchronize explorer now) Q E := by
  intro a s ha
  rw [perform_synchronize]
  rcases hall : (synchronizeAll explorer now).perform a s with ⟨_ | stats, a', s'⟩
  · exact hE _ (h.of_error ha hall)
  · exact hQ _ (h.of_ok ha hall)

end Ensures
end WatchWallet.Action
