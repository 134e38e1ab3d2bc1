import WatchWallet.Proofs.Account.Record

/-!
# Account — Additions

What the steps of a pass add to the journal and to the record of the requests about transactions, whatever
was there before (`Action.Adds`).  Most steps add nothing (`Action.Quiet`); a window accounts for what it
adds, and through the stable window this follows what is told of the tip (`Action.throughStable_of_tip`).
-/

namespace WatchWallet

namespace Journal

variable {kind k : WindowKind} {acts : Journal}

/-- A removal tells nothing. -/
theorem IsOf.removedFrom (h : acts.IsOf kind) {height : Nat} :
    IsOf kind (.removedFrom k height :: acts) := by
  obtain ⟨blocks, completion?, hshows⟩ := h
  exact ⟨blocks, completion?, hshows.cons_removedFrom height⟩

theorem Accounts.removedFrom {window? : Option WindowStats} {exchanges : List Exchange}
    (h : acts.Accounts kind window? exchanges) {height : Nat} :
    Accounts kind window? (.removedFrom k height :: acts) exchanges := by
  obtain ⟨blocks, hshows, hsummary⟩ := h
  exact ⟨blocks, hshows.cons_removedFrom height, hsummary⟩

end Journal

namespace Action

variable {σ α β : Type}

/-- Whatever was there before, the action adds acts to the journal and requests to the record: acts and
requests as told if it succeeds, acts as told if it fails. -/
def Adds (x : Action (σ × List Exchange) α) (Q : α → Journal → List Exchange → Prop)
    (E : Journal → Prop) : Prop :=
  ∀ a s, ∃ acts exchanges, (x.perform a s).2.1.journal = a.journal ++ acts ∧
    (x.perform a s).2.2.2 = s.2 ++ exchanges ∧
    match (x.perform a s).1 with
    | .ok v => Q v acts exchanges
    | .error _ => E acts

/-- The action adds nothing. -/
def Quiet (x : Action (σ × List Exchange) α) : Prop :=
  Adds x (fun _ acts exchanges => acts = [] ∧ exchanges = []) (· = [])

namespace Adds

variable {Q : α → Journal → List Exchange → Prop} {R : β → Journal → List Exchange → Prop}
  {E : Journal → Prop}

theorem pure {v : α} (h : Q v [] []) : Adds (Pure.pure v : Action (σ × List Exchange) α) Q E :=
  fun _ _ => ⟨[], [], (List.append_nil _).symm, (List.append_nil _).symm, h⟩

theorem throw {e : Stop} (h : E []) :
    Adds (MonadExcept.throw e : Action (σ × List Exchange) α) Q E :=
  fun _ _ => ⟨[], [], (List.append_nil _).symm, (List.append_nil _).symm, h⟩

theorem mono {x : Action (σ × List Exchange) α} {Q' : α → Journal → List Exchange → Prop}
    {E' : Journal → Prop} (h : Adds x Q E)
    (hQ : ∀ {v acts exchanges}, Q v acts exchanges → Q' v acts exchanges)
    (hE : ∀ {acts}, E acts → E' acts) : Adds x Q' E' := by
  intro a s
  obtain ⟨acts, exchanges, hjournal, hrecord, hdone⟩ := h a s
  refine ⟨acts, exchanges, hjournal, hrecord, ?_⟩
  revert hdone
  rcases (x.perform a s).1 with e | v
  · exact hE
  · exact hQ

/-- What the second action adds comes after what the first one does; a failure ends both. -/
theorem bind {x : Action (σ × List Exchange) α} {f : α → Action (σ × List Exchange) β}
    (hx : Adds x Q E) (hf : ∀ {v acts exchanges}, Q v acts exchanges →
      Adds (f v) (fun u acts' exchanges' => R u (acts ++ acts') (exchanges ++ exchanges'))
        fun acts' => E (acts ++ acts')) : Adds (x >>= f) R E := by
  intro a s
  obtain ⟨acts, exchanges, hjournal, hrecord, hdone⟩ := hx a s
  rw [perform_bind]
  rcases hrun : x.perform a s with ⟨e | v, b, t⟩ <;> rw [hrun] at hjournal hrecord hdone
  · exact ⟨acts, exchanges, hjournal, hrecord, hdone⟩
  · obtain ⟨acts', exchanges', hjournal', hrecord', hdone'⟩ := hf hdone b t
    refine ⟨acts ++ acts', exchanges ++ exchanges', ?_, ?_, hdone'⟩
    · rw [hjournal', hjournal, List.append_assoc]
    · rw [hrecord', hrecord, List.append_assoc]

theorem get_bind {f : Account × σ × List Exchange → Action (σ × List Exchange) β}
    (hf : ∀ a s, Adds (f (a, s)) R E) : Adds (get >>= f) R E :=
  fun a s => hf a s a s

theorem change_bind {g : Account → Account} (acts : Journal)
    {f : Unit → Action (σ × List Exchange) β} (hg : ∀ a, (g a).journal = a.journal ++ acts)
    (hf : Adds (f ()) (fun u acts' => R u (acts ++ acts')) fun acts' => E (acts ++ acts')) :
    Adds (change g >>= f) R E := by
  have hchange : Adds (change g : Action (σ × List Exchange) Unit)
      (fun _ acts' exchanges => acts' = acts ∧ exchanges = []) E :=
    fun a s => ⟨acts, [], hg a, (List.append_nil _).symm, rfl, rfl⟩
  refine hchange.bind fun h => ?_
  obtain ⟨rfl, rfl⟩ := h
  exact hf

theorem synchronizeWindow (explorer : Explorer σ) (kind : WindowKind) (start : String) (lo hi : Nat) :
    Adds (Action.synchronizeWindow explorer.recorded kind start lo hi)
      (fun stats acts exchanges => acts.Accounts kind (some stats) exchanges) fun acts => acts.IsOf kind := by
  intro a s
  rw [perform_synchronizeWindow]
  obtain ⟨acts, exchanges, hjournal, hrecord, hdone⟩ :=
    (a.window kind).accounts_of_synchronize explorer a.config (some start) lo hi s.1 s.2
  refine ⟨acts, exchanges, hjournal, hrecord, ?_⟩
  dsimp only at hdone ⊢
  rcases hrun : (a.window kind).synchronize explorer.recorded a.config (some start) lo hi s with
    ⟨e | stats, w, t⟩ <;> rw [hrun] at hdone <;> exact hdone

end Adds

namespace Quiet

theorem of_perform {x : Action (σ × List Exchange) α}
    (h : ∀ a s, (x.perform a s).2.1.journal = a.journal ∧ (x.perform a s).2.2.2 = s.2) : Quiet x := by
  intro a s
  refine ⟨[], [], (h a s).1.trans (List.append_nil _).symm, (h a s).2.trans (List.append_nil _).symm, ?_⟩
  rcases (x.perform a s).1 with e | v
  · rfl
  · exact ⟨rfl, rfl⟩

/-- What comes after a quiet action adds everything. -/
theorem bind {x : Action (σ × List Exchange) α} {f : α → Action (σ × List Exchange) β}
    {R : β → Journal → List Exchange → Prop} {E : Journal → Prop} (hx : Quiet x) (hE : E [])
    (hf : ∀ v, Adds (f v) R E) : Adds (x >>= f) R E := by
  have hadds : Adds x (fun _ acts exchanges => acts = [] ∧ exchanges = []) E :=
    hx.mono id fun hnil => hnil ▸ hE
  refine hadds.bind fun {v acts exchanges} h => ?_
  obtain ⟨rfl, rfl⟩ := h
  exact hf v

variable (explorer : Explorer σ)

theorem loadCheckpoint : Quiet (Action.loadCheckpoint : Action (σ × List Exchange) _) :=
  of_perform fun a s => by
    rw [perform_loadCheckpoint]
    exact ⟨rfl, rfl⟩

theorem saveCheckpoint (c : Checkpoint) : Quiet (Action.saveCheckpoint c : Action (σ × List Exchange) _) :=
  of_perform fun a s => by
    rw [perform_saveCheckpoint]
    exact ⟨rfl, rfl⟩

theorem blockHashAt (h : Nat) : Quiet (Action.blockHashAt explorer.recorded h) := by
  have hask : Quiet (ask explorer.recorded (explorer.recorded.block h)) := of_perform fun a s => by
    rw [perform_ask]
    exact ⟨rfl, rfl⟩
  unfold Action.blockHashAt
  split
  · exact Adds.get_bind fun a s => .pure ⟨rfl, rfl⟩
  · refine hask.bind rfl fun found => ?_
    cases found with
    | none => exact .throw rfl
    | some block => exact .pure ⟨rfl, rfl⟩

theorem heightAfter (c : Checkpoint) : Quiet (Action.heightAfter c : Action (σ × List Exchange) _) :=
  of_perform fun a s => by
    rw [perform_heightAfter]
    exact ⟨rfl, rfl⟩

/-- The requests for unconfirmed transactions are of another kind. -/
theorem askPending (parts : List (Nat × List String)) :
    Quiet (Action.askPending explorer.recorded parts) := by
  have hkeep : ∀ part answers t,
      ((Pending.service explorer.recorded).answer part answers t).2.2 = t.2 := by
    intro part answers t
    simp only [Pending.service, Explorer.recorded]
    rcases explorer.pending part.2 t.1 with ⟨e | txs, t'⟩ <;> rfl
  refine of_perform fun a s => ?_
  rw [perform_askPending]
  refine ⟨rfl, ?_⟩
  have hends := Schedule.run_ends (Pending.service explorer.recorded) (P := fun _ _ t => t.2 = s.2) id
    (fun {_ part _ answers t _ _ _} ht hasked => (hasked ▸ hkeep part answers t).trans ht)
    (parts.map (Schedule.fresh 0)) [] s rfl
  dsimp only
  rw [Schedule.runAll]
  generalize Schedule.run (Pending.service explorer.recorded) (parts.map (Schedule.fresh 0)) [] s = ran
    at hends
  cases hends with
  | done h => exact h
  | @failed _ part answers t _ _ h _ hfail => exact (hfail ▸ hkeep part answers t).trans h

end Quiet

namespace Adds

variable (explorer : Explorer σ) (now : Instant)

/-- The stable window accounts for what it does. -/
theorem scanStable (start : String) (lo hi : Nat) :
    Adds (Action.scanStable explorer.recorded now start lo hi)
      (fun stats acts exchanges => acts.Accounts .stable (some stats) exchanges)
      fun acts => acts.IsOf .stable := by
  refine (synchronizeWindow explorer .stable start lo hi).bind fun {stats acts exchanges} h => ?_
  have hof : Journal.IsOf .stable (acts ++ []) := (List.append_nil acts).symm ▸ h.isOf
  refine (Quiet.blockHashAt explorer hi).bind hof fun hash => ?_
  refine (Quiet.saveCheckpoint _).bind hof fun _ => pure ?_
  rwa [List.append_nil, List.append_nil]

theorem synchronizeStable (hi : Nat) :
    Adds (Action.synchronizeStable explorer.recorded now hi)
      (fun stats acts exchanges => acts.Accounts .stable (some stats) exchanges)
      fun acts => acts.IsOf .stable := by
  have hnil : Journal.IsOf .stable [] := (Journal.Accounts.none .stable).isOf
  refine Quiet.loadCheckpoint.bind hnil fun saved => ?_
  cases saved with
  | none => exact get_bind fun a s => scanStable explorer now _ _ hi
  | some checkpoint =>
      refine (Quiet.heightAfter checkpoint).bind hnil fun lo => ?_
      split
      · rename_i hlt
        exact pure (.idle .stable hlt)
      · exact (Quiet.blockHashAt explorer _).bind hnil fun hash => scanStable explorer now hash _ hi

theorem rebuildUnstable (lo tip : Nat) :
    Adds (Action.rebuildUnstable explorer.recorded lo tip)
      (fun stats acts exchanges => acts.Accounts .unstable (some stats) exchanges)
      fun acts => acts.IsOf .unstable := by
  have hremoved : Journal.IsOf .unstable [.removedFrom .unstable 0] :=
    (Journal.Accounts.none .unstable).isOf.removedFrom
  have hclear : Adds (clearUnstable : Action (σ × List Exchange) Unit)
      (fun _ acts exchanges => acts = [.removedFrom .unstable 0] ∧ exchanges = [])
      fun acts => acts.IsOf .unstable := by
    intro a s
    rw [perform_clearUnstable]
    refine ⟨[.removedFrom .unstable 0], [], rfl, (List.append_nil _).symm, ?_⟩
    dsimp only
    rcases (a.unstable.removeFrom 0 a.disk).1 with e | u
    · exact hremoved
    · exact ⟨rfl, rfl⟩
  refine hclear.bind fun {_ acts exchanges} h => ?_
  obtain ⟨rfl, rfl⟩ := h
  refine (Quiet.blockHashAt explorer lo).bind hremoved fun start => ?_
  refine (synchronizeWindow explorer .unstable start lo tip).mono (fun h => h.removedFrom) fun h =>
    h.removedFrom

/-- What there may be accounts for what it does; without it nothing is done. -/
theorem optionMapM {kind : WindowKind} {o : Option Nat} {f : Nat → Action (σ × List Exchange) WindowStats}
    (hf : ∀ h, Adds (f h) (fun stats acts exchanges => acts.Accounts kind (some stats) exchanges)
      fun acts => acts.IsOf kind) :
    Adds (o.mapM f) (fun window? acts exchanges => acts.Accounts kind window? exchanges)
      fun acts => acts.IsOf kind := by
  cases o with
  | none => exact pure (.none kind)
  | some h =>
      rw [Option.mapM_some, map_eq_pure_bind]
      refine (hf h).bind fun {stats acts exchanges} hstats => pure ?_
      rwa [List.append_nil, List.append_nil]

/-- What follows the stable window: the unstable one accounts for what it does, and last the unconfirmed
transactions are told. -/
theorem finish (tip depth : Nat) (stable : Option WindowStats) :
    Adds (Action.finish explorer.recorded tip depth stable)
      (fun stats acts exchanges => stats.tip = tip ∧ stats.stable = stable ∧
        ∃ before, acts = before ++ [.event (.pendingUpdated stats.pending)] ∧
          Journal.Accounts .unstable stats.unstable before exchanges)
      fun acts => acts.IsOf .unstable := by
  refine (optionMapM fun lo => rebuildUnstable explorer lo tip).bind
    fun {unstable before exchanges} h => ?_
  have hof : Journal.IsOf .unstable (before ++ []) := (List.append_nil before).symm ▸ h.isOf
  simp only [Action.refreshPending, bind_assoc, pure_bind]
  refine get_bind fun a s => ?_
  refine (Quiet.askPending explorer _).bind hof fun txs => ?_
  refine change_bind [] (fun a => (List.append_nil _).symm) ?_
  refine change_bind [.event _] (fun a => rfl) ?_
  exact pure ⟨rfl, rfl, _, rfl, (List.append_nil exchanges).symm ▸ h⟩

end Adds

/-- When the tip is known, it is told, and the stable window accounts for what it does. -/
theorem throughStable_of_tip {explorer : Explorer σ} (now : Instant) (a : Account)
    {s s' : σ × List Exchange} {tip : Block}
    (htip : explorer.recorded.tip (explorer.recorded.delay s).2 = (.ok tip, s')) :
    let done := (throughStable explorer.recorded now).perform a s
    ∃ (acts : Journal) (exchanges : List Exchange),
      done.2.1.journal = a.journal ++ .event (.syncStarted tip.height.toNat) :: acts ∧
      done.2.2.2 = s'.2 ++ exchanges ∧
      match done.1 with
      | .ok v => v.1 = tip.height.toNat ∧ acts.Accounts .stable v.2.2 exchanges
      | .error _ => acts.IsOf .stable := by
  let height := tip.height.toNat
  let depth := a.config.unstableDepth.toNat
  let window : Action (σ × List Exchange) (Nat × Nat × Option WindowStats) :=
    (Split.ofTip height depth).stableTo.mapM (synchronizeStable explorer.recorded now) >>=
      fun window? => pure (height, depth, window?)
  let told : Account := { a with journal := a.journal ++ [.event (.syncStarted height)] }
  have hthrough : (throughStable explorer.recorded now).perform a s = window.perform told s' := by
    rw [throughStable, perform_bind, perform_ask, htip]
    rfl
  have hadds : Adds window (fun v acts exchanges => v.1 = height ∧ acts.Accounts .stable v.2.2 exchanges)
      fun acts => acts.IsOf .stable := by
    refine (Adds.optionMapM fun hi => .synchronizeStable explorer now hi).bind fun h => .pure ⟨rfl, ?_⟩
    rwa [List.append_nil, List.append_nil]
  obtain ⟨acts, exchanges, hjournal, hrecord, hdone⟩ := hadds told s'
  rw [hthrough]
  refine ⟨acts, exchanges, hjournal.trans (List.append_assoc ..), hrecord, ?_⟩
  rcases hrun : window.perform told s' with ⟨e | v, b, t⟩ <;> rw [hrun] at hdone <;> exact hdone

end Action
end WatchWallet
