import WatchWallet.Proofs.Account.Course
import WatchWallet.Proofs.Window.Overflow

/-!
# Account — Overflow

When a pass overflows.  It does not, whatever the explorer answers and whatever the disk does, when
every chain leaves room for two more gaps and the checkpoint is not at the last height of 32 bits
(`Pass.outcome_ne_overflow`).  From a checkpoint there, a pass with a stable window ends as soon as it
has started (`Pass.overflow_of_lastHeight`).
-/

namespace WatchWallet

/-- The positions and the height that a pass adds up stay within 32 bits. -/
structure Account.HasRoom (a : Account) : Prop where
  chains : a.chains.HasRoom a.config.gapSize.toNat
  checkpoint : ∀ {saved}, a.checkpoints.load a.disk = .ok (some saved) →
    saved.height.toNat + 1 < UInt32.size

namespace Action

variable {σ α β : Type} {base : Account}

/-- The action does not overflow on what the account may become, and leaves what it may become. -/
def Contained (base : Account) (x : Action σ α) : Prop :=
  Ensures base.Becomes x (fun _ => base.Becomes) fun stop _ => stop ≠ .overflow

namespace Contained

theorem of_perform {x : Action σ α} (h : ∀ a s, base.Becomes a → base.Becomes (x.perform a s).2.1 ∧
    (x.perform a s).1 ≠ .error .overflow) : Contained base x := by
  intro a s ha
  obtain ⟨hbecomes, hne⟩ := h a s ha
  rcases hrun : x.perform a s with ⟨stop | v, b, t⟩ <;> rw [hrun] at hbecomes hne
  · exact fun hstop => hne (hstop ▸ rfl)
  · exact hbecomes

theorem failure_ne (r : Except SyncError α) : r.mapError Stop.failed ≠ .error .overflow := by
  cases r <;> nofun

theorem pure (v : α) : Contained base (Pure.pure v : Action σ α) :=
  Ensures.pure fun _ ha => ha

theorem bind {x : Action σ α} {f : α → Action σ β} (hx : Contained base x)
    (hf : ∀ v, Contained base (f v)) : Contained base (x >>= f) :=
  Ensures.bind hx hf

theorem get_bind {f : Account × σ → Action σ β} (hf : ∀ a s, Contained base (f (a, s))) :
    Contained base (get >>= f) :=
  Ensures.get_bind fun a s ha => (hf a s).of_eq ha

theorem optionMapM {o : Option β} {f : β → Action σ α} (hf : ∀ v, Contained base (f v)) :
    Contained base (o.mapM f) := by
  cases o with
  | none => exact pure none
  | some v =>
      rw [Option.mapM_some, map_eq_pure_bind]
      exact (hf v).bind fun _ => pure _

theorem change {f : Account → Account} (hf : ∀ a : Account, a.Becomes (f a)) :
    Contained base (Action.change f : Action σ Unit) :=
  Ensures.change fun a ha => ⟨(hf a).config.trans ha.config,
    fun c => ((hf a).addresses c).trans (ha.addresses c)⟩

variable (explorer : Explorer σ) (now : Instant)

theorem ask (request : σ → Except ExplorerError α × σ) :
    Contained base (Action.ask explorer request) :=
  of_perform fun a s ha => by
    rw [perform_ask]
    exact ⟨ha, failure_ne _⟩

theorem loadCheckpoint : Contained base (Action.loadCheckpoint : Action σ _) :=
  of_perform fun a s ha => by
    rw [perform_loadCheckpoint]
    exact ⟨ha, failure_ne _⟩

theorem saveCheckpoint (c : Checkpoint) : Contained base (Action.saveCheckpoint c : Action σ _) :=
  of_perform fun a s ha => by
    rw [perform_saveCheckpoint]
    exact ⟨⟨ha.config, ha.addresses⟩, failure_ne _⟩

theorem clearUnstable : Contained base (Action.clearUnstable : Action σ _) :=
  of_perform fun a s ha => by
    rw [perform_clearUnstable]
    exact ⟨⟨ha.config, ha.addresses⟩, failure_ne _⟩

theorem blockHashAt (h : Nat) : Contained base (Action.blockHashAt explorer h) := by
  unfold Action.blockHashAt
  split
  · exact get_bind fun a s => pure _
  · refine (ask explorer _).bind fun found => ?_
    cases found with
    | none => exact Ensures.throw fun _ _ => nofun
    | some block => exact pure _

theorem askPending (parts : List (Nat × List String)) :
    Contained base (Action.askPending explorer parts) := by
  refine of_perform fun a s ha => ?_
  rw [perform_askPending]
  refine ⟨ha, ?_⟩
  dsimp only
  rw [Schedule.runAll]
  have hends := Schedule.run_ends (Pending.service explorer) (P := fun _ _ _ => True) id
    (fun _ _ => trivial) (parts.map (Schedule.fresh 0)) [] s trivial
  generalize Schedule.run (Pending.service explorer) (parts.map (Schedule.fresh 0)) [] s = ran at hends
  cases hends with
  | done _ =>
      intro hover
      cases hover
  | @failed _ part answers t _ stop _ _ hfail =>
      simp only [Pending.service] at hfail
      rcases hreply : explorer.pending part.2 t with ⟨e | txs, t'⟩ <;> rw [hreply] at hfail <;>
        cases hfail
      intro hover
      cases hover

theorem refreshPending : Contained base (Action.refreshPending explorer) := by
  refine get_bind fun a s => (askPending explorer _).bind fun txs => ?_
  refine Contained.bind (change fun a => ⟨rfl, fun c => (Chains.grows_markAll _ _ c).1⟩) fun _ => ?_
  exact Contained.bind (change fun a => ⟨rfl, fun _ => rfl⟩) fun _ => pure _

variable (hroom : base.chains.HasRoom base.config.gapSize.toNat)
include hroom

theorem synchronizeWindow (kind : WindowKind) (start : String) (lo hi : Nat) :
    Contained base (Action.synchronizeWindow explorer kind start lo hi) := by
  refine of_perform fun a s ha => ?_
  rw [perform_synchronizeWindow]
  have hw : (a.window kind).Advances lo hi
      ((a.window kind).synchronize explorer a.config (some start) lo hi s).2.1 :=
    Window.advances_of_synchronize rfl
  refine ⟨⟨(a.config_ofWindow _).trans ha.config, fun c => ?_⟩, ?_⟩
  · exact (hw.chains c).1.trans (ha.addresses c)
  · refine Window.synchronize_ne_overflow _ explorer (fun c => ?_) (some start) lo hi s
    show (a.chains.get c).addresses.length + 2 * a.config.gapSize.toNat < UInt32.size
    rw [ha.addresses c, ha.config]
    exact hroom c

theorem scanStable (start : String) (lo hi : Nat) :
    Contained base (Action.scanStable explorer now start lo hi) :=
  (synchronizeWindow explorer hroom .stable start lo hi).bind fun _ =>
    (blockHashAt explorer hi).bind fun _ => (saveCheckpoint _).bind fun _ => pure _

theorem rebuildUnstable (lo tip : Nat) : Contained base (Action.rebuildUnstable explorer lo tip) :=
  clearUnstable.bind fun _ => (blockHashAt explorer lo).bind fun start =>
    synchronizeWindow explorer hroom .unstable start lo tip

theorem finish (tip depth : Nat) (stable : Option WindowStats) :
    Contained base (Action.finish explorer tip depth stable) :=
  (optionMapM fun lo => rebuildUnstable explorer hroom lo tip).bind fun _ =>
    (refreshPending explorer).bind fun _ => pure _

omit hroom in
/-- From a checkpoint below the last height of 32 bits, the stable window does not overflow. -/
theorem synchronizeStable (hroom : base.HasRoom) (hi : Nat) :
    Ensures (· = base) (Action.synchronizeStable explorer now hi) (fun _ => base.Becomes)
      fun stop _ => stop ≠ .overflow := by
  have hload : Ensures (· = base) (Action.loadCheckpoint : Action σ _)
      (fun saved a => base.Becomes a ∧ base.checkpoints.load base.disk = .ok saved)
      fun stop _ => stop ≠ .overflow := by
    rintro a s rfl
    rw [perform_loadCheckpoint]
    rcases a.checkpoints.load a.disk with e | saved
    · nofun
    · exact ⟨⟨rfl, fun _ => rfl⟩, rfl⟩
  refine hload.bind fun saved => .of_and fun hsaved => ?_
  cases saved with
  | none => exact get_bind fun a s => scanStable explorer now hroom.chains _ _ hi
  | some checkpoint =>
      have hnext : Contained base (Action.heightAfter checkpoint : Action σ Nat) :=
        of_perform fun a s ha => by
          rw [perform_heightAfter, if_pos (hroom.checkpoint hsaved)]
          exact ⟨ha, nofun⟩
      refine hnext.bind fun lo => ?_
      split
      · exact pure _
      · exact (blockHashAt explorer lo).bind fun start => scanStable explorer now hroom.chains start lo hi

end Contained
end Action

namespace Pass

variable {p : Pass}

/-- **With room for what it adds up, a pass does not overflow**, whatever the explorer answers and
whatever the disk does. -/
theorem outcome_ne_overflow (hroom : p.account.HasRoom) : p.outcome ≠ .error .overflow := by
  obtain ⟨-, houtcome, -⟩ := p.exists_acts
  rw [houtcome]
  rcases hasked : p.asked with ⟨failure | block, s⟩
  · rw [Action.synchronizeAll, Action.perform_bind, Action.perform_ask,
      show p.explorer.tip (p.explorer.delay p.state).2 = (.error failure, s) from hasked]
    intro hover
    cases hover
  · have htold : (p.told block.height.toNat).HasRoom := ⟨hroom.chains, hroom.checkpoint⟩
    have hstable : Action.Ensures (· = p.told block.height.toNat)
        ((Split.ofTip block.height.toNat p.depth).stableTo.mapM
          (Action.synchronizeStable p.explorer p.now))
        (fun _ => (p.told block.height.toNat).Becomes) fun stop _ => stop ≠ .overflow :=
      .optionMapM (fun hi _ => Action.Contained.synchronizeStable p.explorer p.now htold hi)
        fun _ a ha => ha ▸ ⟨rfl, fun _ => rfl⟩
    have hsteps := hstable.bind (Action.Contained.finish p.explorer htold.chains
      block.height.toNat p.depth)
    intro hover
    rcases hrun : (Action.synchronizeAll p.explorer p.now).perform p.account p.state with ⟨result, a, t⟩
    rw [hrun] at hover
    obtain rfl : result = .error .overflow := hover
    exact hsteps.of_error rfl
      ((Action.perform_synchronizeAll p.account p.state hasked).symm.trans hrun) rfl

/-- From a checkpoint at the last height of 32 bits, a pass with a stable window overflows at once. -/
theorem overflow_of_lastHeight {saved : Checkpoint} {tip : Nat}
    (hload : p.account.checkpoints.load p.account.disk = .ok (some saved))
    (hlast : saved.height.toNat + 1 = UInt32.size) (htip : p.tip? = some tip) (hdepth : p.depth ≤ tip) :
    p.outcome = .error .overflow ∧
      p.after.journal = p.account.journal ++ [.event (.syncStarted tip)] := by
  obtain ⟨block, hblock, rfl⟩ := Option.map_eq_some_iff.1 htip
  rcases hasked : p.asked with ⟨failure | told, s⟩ <;> rw [hasked] at hblock <;> cases hblock
  have hsplit : (Split.ofTip block.height.toNat p.depth).stableTo =
      some (block.height.toNat - p.depth) := Split.stableTo_eq_some_iff.2 ⟨hdepth, rfl⟩
  have hstable := Action.perform_synchronizeStable_of_lastHeight (p.told block.height.toNat) s
    p.explorer p.now (block.height.toNat - p.depth) hload hlast
  have hall : (Action.synchronizeAll p.explorer p.now).perform p.account p.state =
      (.error .overflow, p.told block.height.toNat, s) := by
    rw [Action.perform_synchronizeAll p.account p.state hasked]
    show (((Split.ofTip block.height.toNat p.depth).stableTo.mapM
      (Action.synchronizeStable p.explorer p.now)) >>= _).perform (p.told block.height.toNat) s = _
    rw [hsplit, Option.mapM_some, map_eq_pure_bind, bind_assoc, Action.perform_bind, hstable]
  have hdone := Action.perform_synchronize p.account p.state p.explorer p.now
  rw [hall] at hdone
  refine ⟨congrArg (·.1) hdone, (congrArg (·.2.1.journal) hdone).trans ?_⟩
  exact List.append_nil _

end Pass
end WatchWallet
