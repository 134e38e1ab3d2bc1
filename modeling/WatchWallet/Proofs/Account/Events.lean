import WatchWallet.Proofs.Account.Additions
import WatchWallet.Proofs.Account.Convergence
import WatchWallet.Proofs.Account.Overflow

/-!
# Account — Events

What a pass tells while it runs, and what its summary counts.  What its steps add makes up what the pass
adds (`Pass.addition`); so the events of a pass follow one protocol (`Event.OfPass`), up to where an
overflow may cut it off, and the summaries of its windows agree with the events, with the blocks that
were handed over and with the requests (`Pass.Tallies`).
-/

namespace WatchWallet

open WatchWallet.Action (twoAddressAccount lookupFails)
open Window (threeBlocks)

namespace Event

/-- The block of a window that an event tells of: its height and the number of its transactions. -/
def finalized? (kind : WindowKind) : Event → Option (Nat × Nat)
  | blockFinalized k height transactions => if k = kind then some (height, transactions) else none
  | _ => none

/-- The completion of a window that an event tells of: its bounds and the number of its blocks. -/
def completed? (kind : WindowKind) : Event → Option (Nat × Nat × Nat)
  | windowCompleted k lo hi blocks => if k = kind then some (lo, hi, blocks) else none
  | _ => none

/-- The events of a window: its blocks in strictly ascending order, closed by at most one completion. -/
def OfWindow (kind : WindowKind) (es : List Event) : Prop :=
  ∃ (blocks : List (Nat × Nat)) (completion? : Option (Nat × Nat × Nat)),
    (blocks.map Prod.fst).Pairwise (· < ·) ∧
      es = blocks.map (fun (height, transactions) => blockFinalized kind height transactions) ++
        completion?.toList.map fun (lo, hi, n) => windowCompleted kind lo hi n

/-- The events of a pass that succeeds: it starts, goes through its windows, refreshes the unconfirmed
transactions, and is completed. -/
def OfPass (tip pending : Nat) (es : List Event) : Prop :=
  ∃ stable unstable, OfWindow .stable stable ∧ OfWindow .unstable unstable ∧
    es = syncStarted tip :: (stable ++ unstable) ++ [pendingUpdated pending, syncCompleted tip]

/-- The first events of a pass, one or more but not all. -/
def OpensPass (tip : Nat) (es : List Event) : Prop :=
  es ≠ [] ∧ ∃ rest pending, rest ≠ [] ∧ OfPass tip pending (es ++ rest)

end Event

/-! ### What acts tell -/

namespace Journal

variable {kind k : WindowKind} {blocks : List FilledBlock} {completion? : Option WindowStats}
  {acts : Journal}

theorem IsOf.events (h : acts.IsOf kind) : Event.OfWindow kind (Journal.events acts) := by
  obtain ⟨blocks, completion?, hascending, hevents, -⟩ := h
  refine ⟨blocks.map fun b => (b.height, b.transactions.length),
    completion?.map fun w => (w.lo, w.hi, w.blocks), ?_, ?_⟩
  · rw [List.map_map]
    exact hascending
  · rw [hevents, List.map_map]
    cases completion? <;> rfl

/-- What is read off the events of a window comes from its blocks and its completion. -/
theorem Shows.filterMap_events {β : Type} (h : acts.Shows kind blocks completion?) (f : Event → Option β) :
    (Journal.events acts).filterMap f = blocks.filterMap (fun b => f (b.finalized kind)) ++
      completion?.toList.filterMap fun w => f (w.completed kind) := by
  rw [h.events, List.filterMap_append, List.filterMap_map]
  cases completion? <;> rfl

theorem Shows.finalized (h : acts.Shows kind blocks completion?) :
    (Journal.events acts).filterMap (Event.finalized? k) =
      if k = kind then blocks.map fun b => (b.height, b.transactions.length) else [] := by
  rw [h.filterMap_events]
  by_cases hk : k = kind
  · simp [FilledBlock.finalized, Event.finalized?, WindowStats.completed, hk]
  · simp [FilledBlock.finalized, Event.finalized?, WindowStats.completed, hk, Ne.symm hk]

theorem Shows.completed (h : acts.Shows kind blocks completion?) :
    (Journal.events acts).filterMap (Event.completed? k) =
      if k = kind then completion?.toList.map fun w => (w.lo, w.hi, w.blocks) else [] := by
  rw [h.filterMap_events]
  by_cases hk : k = kind
  · simp [FilledBlock.finalized, Event.completed?, WindowStats.completed, hk]
  · simp [FilledBlock.finalized, Event.completed?, WindowStats.completed, hk, Ne.symm hk]

end Journal

/-! ### The bounds of the windows -/

namespace Action

variable {σ α : Type} {explorer : Explorer σ} {now : Instant} {P : Account → Prop}

/-- What is known besides the account stays known. -/
theorem Ensures.fact {p : Prop} (x : Action σ α) :
    Ensures (fun _ => p) x (fun _ _ => p) fun _ _ => True := by
  intro a s hp
  rcases x.perform a s with ⟨e | v, b, t⟩
  · trivial
  · exact hp

theorem ensures_bounds_synchronizeWindow {kind : WindowKind} {start : String} {lo hi : Nat} :
    Ensures P (synchronizeWindow explorer kind start lo hi) (fun stats _ => stats.bounds = (lo, hi))
      fun _ _ => True := by
  intro a s _
  rw [perform_synchronizeWindow]
  rcases hrun : (a.window kind).synchronize explorer a.config (some start) lo hi s with ⟨e | stats, w, t⟩
  · trivial
  · exact Window.bounds_of_synchronize hrun

theorem ensures_bounds_synchronizeStable {a : Account} {hi : Nat} :
    Ensures (· = a) (synchronizeStable explorer now hi) (fun stats _ => stats.bounds = (a.resumeAt, hi))
      fun _ _ => True := by
  rintro a s rfl
  rw [synchronizeStable_eq, perform_bind]
  rcases hresume : (resume explorer hi).perform a s with ⟨e | ⟨start?, lo⟩, b, t⟩
  · trivial
  obtain ⟨rfl, -, -⟩ := resume_ok hresume
  cases start? with
  | none => rfl
  | some start =>
      have hscan : Ensures (fun _ => True) (scanStable explorer now start a.resumeAt hi)
          (fun stats _ => stats.bounds = (a.resumeAt, hi)) fun _ _ => True :=
        ensures_bounds_synchronizeWindow.bind fun stats => (Ensures.fact _).bind fun _ =>
          (Ensures.fact _).bind fun _ => .pure fun _ h => h
      exact hscan b t trivial

theorem ensures_bounds_rebuildUnstable {lo tip : Nat} :
    Ensures (fun _ => True) (rebuildUnstable explorer lo tip) (fun stats _ => stats.bounds = (lo, tip))
      fun _ _ => True :=
  (Ensures.fact _).bind fun _ => (Ensures.fact _).bind fun _ => ensures_bounds_synchronizeWindow

/-- The summary of a window that there may be has the bounds of the window. -/
theorem Ensures.bounds_optionMapM {o : Option Nat} {f : Nat → Action σ WindowStats} {g : Nat → Nat × Nat}
    (hf : ∀ h, Ensures P (f h) (fun stats _ => stats.bounds = g h) fun _ _ => True) :
    Ensures P (o.mapM f) (fun window? _ => window?.map WindowStats.bounds = o.map g)
      fun _ _ => True := by
  cases o with
  | none => exact .pure fun _ _ => rfl
  | some h =>
      rw [Option.mapM_some, map_eq_pure_bind]
      exact (hf h).bind fun stats => .pure fun _ hstats => congrArg some hstats

theorem ensures_bounds_finish {tip depth : Nat} {stable : Option WindowStats} {bounds? : Option (Nat × Nat)} :
    Ensures (fun _ => stable.map WindowStats.bounds = bounds?) (finish explorer tip depth stable)
      (fun stats _ => stats.stable.map WindowStats.bounds = bounds? ∧
        stats.unstable.map WindowStats.bounds = (Split.ofTip tip depth).unstableFrom.map (·, tip))
      fun _ _ => True := by
  intro a s hstable
  have hunstable : Ensures (fun _ => True) ((Split.ofTip tip depth).unstableFrom.mapM
      (rebuildUnstable explorer · tip)) _ _ := .bounds_optionMapM fun lo => ensures_bounds_rebuildUnstable
  exact (hunstable.bind fun window? => (Ensures.fact _).bind fun pending =>
    .pure fun _ h => ⟨hstable, h⟩) a s trivial

end Action

/-! ### What a pass adds -/

/-- The summary of a window of the pass. -/
def SyncStats.window? (stats : SyncStats) : WindowKind → Option WindowStats
  | .stable => stats.stable
  | .unstable => stats.unstable

namespace Pass

variable (p : Pass)

/-- The bounds of the windows of the pass, when the tip is known: the stable window is resumed, and the
unstable one reaches to the tip. -/
def bounds? (tip : Nat) : WindowKind → Option (Nat × Nat)
  | .stable => (Split.ofTip tip p.depth).stableTo.map (p.account.resumeAt, ·)
  | .unstable => (Split.ofTip tip p.depth).unstableFrom.map (·, tip)

/-- What a pass adds to the journal and to the record of its requests. -/
inductive Addition : Prop where
  /-- The tip is not told. -/
  | unanswered (htip : p.tip? = none) {e : SyncError} (hfail : p.outcome = .error (.failed e))
      (hjournal : p.after.journal = p.account.journal ++ [.event (.syncFailed e.message)])
  /-- The pass is stopped in one of its windows or after them. -/
  | stopped {tip : Nat} (htip : p.tip? = some tip) {stop : Stop} (hstop : p.outcome = .error stop)
      {stable unstable : Journal} (hstable : stable.IsOf .stable) (hunstable : unstable.IsOf .unstable)
      (hjournal : p.after.journal = p.account.journal ++
        (.event (.syncStarted tip) :: (stable ++ unstable) ++ Action.lastWord (.error stop)))
  | succeeded {stats : SyncStats} (htip : p.tip? = some stats.tip) (hok : p.outcome = .ok stats)
      {stable unstable : Journal} {asked asked' : List Exchange}
      (hstable : stable.Accounts .stable stats.stable asked)
      (hunstable : unstable.Accounts .unstable stats.unstable asked')
      (hjournal : p.after.journal = p.account.journal ++
        (.event (.syncStarted stats.tip) :: (stable ++ unstable) ++
          [.event (.pendingUpdated stats.pending), .event (.syncCompleted stats.tip)]))
      (hfirst : p.stableExchanges = asked) (hall : p.allExchanges = asked ++ asked')

variable {p}

/-- A pass comes to what its steps come to, which is told last. -/
theorem of_steps {result : Except Stop SyncStats} {a : Account} {t : p.σ × List Exchange}
    (h : (Action.synchronizeAll p.explorer.recorded p.now).perform p.account (p.state, []) =
      (result, a, t)) :
    p.outcome = result ∧ p.after.journal = a.journal ++ Action.lastWord result ∧
      p.allExchanges = t.2 := by
  have hrun : p.recorded.performed = _ :=
    Action.perform_synchronize p.account (p.state, []) p.explorer.recorded p.now
  rw [h] at hrun
  rw [← p.outcome_recorded, ← p.after_recorded, outcome, after, allExchanges, hrun]
  exact ⟨rfl, rfl, rfl⟩

theorem addition_of_unanswered {failure : ExplorerError} {s : p.σ} (hasked : p.asked = (.error failure, s)) :
    p.Addition := by
  have hnone : (Action.synchronizeAll p.explorer.recorded p.now).perform p.account (p.state, []) =
      (.error (.failed (.explorer failure)), p.account, s, []) := by
    rw [Action.synchronizeAll, Action.perform_bind, Action.perform_ask,
      show p.explorer.recorded.tip (p.explorer.recorded.delay (p.state, [])).2 =
        (p.asked.1, p.asked.2, []) from rfl, hasked]
    rfl
  obtain ⟨hfail, hjournal, -⟩ := of_steps hnone
  exact .unanswered (by rw [tip?, hasked]; rfl) hfail hjournal

theorem addition_of_answered {block : Block} {s : p.σ} (hasked : p.asked = (.ok block, s)) :
    p.Addition := by
  have hknown : p.tip? = some block.height.toNat := by
    rw [tip?, hasked]
    rfl
  have htip : p.explorer.recorded.tip (p.explorer.recorded.delay (p.state, [])).2 = (.ok block, s, []) := by
    show (p.asked.1, p.asked.2, []) = _
    rw [hasked]
  have hsteps := congrArg (Action.perform · p.account (p.state, []))
    (Action.synchronizeAll_eq p.explorer.recorded p.now)
  dsimp only at hsteps
  rw [Action.perform_bind] at hsteps
  -- the pass goes through its stable window, and on from there
  obtain ⟨stable, asked, hjournal, hrecord, hdone⟩ := Action.throughStable_of_tip p.now p.account htip
  rcases hfirst : (Action.throughStable p.explorer.recorded p.now).perform p.account (p.state, []) with
    ⟨e | ⟨tip, depth, window?⟩, b, t⟩ <;> rw [hfirst] at hjournal hrecord hdone hsteps
  · obtain ⟨hstop, htold, -⟩ := of_steps hsteps
    refine .stopped hknown hstop hdone (Journal.Accounts.none .unstable).isOf ?_
    rw [htold, hjournal, List.append_nil, List.append_assoc]
  obtain ⟨rfl, hstable⟩ := hdone
  obtain ⟨unstable, asked', hjournal', hrecord', hdone'⟩ :=
    Action.Adds.finish p.explorer block.height.toNat depth window? b t
  dsimp only at hsteps hjournal hrecord
  rcases hrest : (Action.finish p.explorer.recorded block.height.toNat depth window?).perform b t with
    ⟨e | stats, c, t'⟩ <;> rw [hrest] at hjournal' hrecord' hdone' hsteps <;>
    dsimp only at hjournal' hrecord'
  · obtain ⟨hstop, htold, -⟩ := of_steps hsteps
    refine .stopped hknown hstop hstable.isOf hdone' ?_
    simp [htold, hjournal', hjournal]
  · obtain ⟨hok, htold, hall⟩ := of_steps hsteps
    obtain ⟨htip', rfl, before, rfl, hunstable⟩ := hdone'
    refine .succeeded (htip' ▸ hknown) hok hstable hunstable ?_ ?_ ?_
    · simp [htold, hjournal', hjournal, htip', Action.lastWord]
    · rw [stableExchanges, hfirst, hrecord]
      rfl
    · rw [hall, hrecord', hrecord]
      rfl

variable (p) in
/-- **What a pass adds**, whatever the explorer answers and whatever the disk does. -/
theorem addition : p.Addition := by
  rcases hasked : p.asked with ⟨failure | block, s⟩
  · exact addition_of_unanswered hasked
  · exact addition_of_answered hasked

/-- The summaries of a pass that succeeds have the bounds of its windows. -/
theorem bounds_of_ok {tip : Nat} {stats : SyncStats} (htip : p.tip? = some tip)
    (hok : p.outcome = .ok stats) (kind : WindowKind) :
    (stats.window? kind).map WindowStats.bounds = p.bounds? tip kind := by
  obtain ⟨-, houtcome, -⟩ := p.exists_acts
  obtain ⟨block, hblock, rfl⟩ := Option.map_eq_some_iff.1 htip
  rcases hasked : p.asked with ⟨failure | told, s⟩ <;> rw [hasked] at hblock <;> cases hblock
  let window := (Split.ofTip block.height.toNat p.depth).stableTo.mapM
    (Action.synchronizeStable p.explorer p.now)
  have hstable : Action.Ensures (· = p.told block.height.toNat) window _ _ :=
    .bounds_optionMapM fun hi => Action.ensures_bounds_synchronizeStable
  have hsteps : Action.Ensures (· = p.told block.height.toNat)
      (window >>= Action.finish p.explorer block.height.toNat p.depth) _ _ :=
    hstable.bind fun window? => Action.ensures_bounds_finish
  rcases hrun : (Action.synchronizeAll p.explorer p.now).perform p.account p.state with ⟨result, a, t⟩
  rw [hrun, hok] at houtcome
  obtain rfl : .ok stats = result := houtcome
  obtain ⟨hfirst, hsecond⟩ := hsteps.of_ok rfl
    ((Action.perform_synchronizeAll p.account p.state hasked).symm.trans hrun)
  cases kind with
  | stable => exact hfirst
  | unstable => exact hsecond

variable (p)

/-- The acts of the pass, in order. -/
def acts : Journal := p.after.journal.drop p.account.journal.length

/-- The events that are told in the pass, in order. -/
def events : List Event := Journal.events p.acts

theorem acts_eq {p : Pass} {acts : Journal} (h : p.after.journal = p.account.journal ++ acts) :
    p.acts = acts := by
  rw [Pass.acts, h, List.drop_left]

/-- The summary of a window agrees with the events of the pass, with the blocks that were handed over and
with the requests. -/
structure Tallies (kind : WindowKind) (window? : Option WindowStats) : Prop where
  /-- A window with heights is told complete once, and no other is. -/
  completed : p.events.filterMap (Event.completed? kind) =
    (window?.filter WindowStats.hasHeights).toList.map fun w => (w.lo, w.hi, w.blocks)
  /-- The blocks that are told are those handed over. -/
  finalized : p.events.filterMap (Event.finalized? kind) =
    (Journal.added kind p.acts).map fun b => (b.height, b.transactions.length)
  counters : (window?.map (·.toProgress)).getD {} =
    { requests := (p.exchanges kind).length
      received := ((p.exchanges kind).map Exchange.received).sum
      blocks := (p.events.filterMap (Event.finalized? kind)).length
      written := ((p.events.filterMap (Event.finalized? kind)).map Prod.snd).sum }
  answered : ∀ x ∈ p.exchanges kind, ∃ a, x.reply = .ok a

variable {p} in
/-- The summary tallies when it counts what was asked and the blocks that were handed over and told. -/
theorem Tallies.of_blocks {kind : WindowKind} {window? : Option WindowStats} {blocks : List FilledBlock}
    {asked : List Exchange} (hasked : p.exchanges kind = asked)
    (hcompleted : p.events.filterMap (Event.completed? kind) =
      (window?.filter WindowStats.hasHeights).toList.map fun w => (w.lo, w.hi, w.blocks))
    (hfinalized : p.events.filterMap (Event.finalized? kind) =
      blocks.map fun b => (b.height, b.transactions.length))
    (hadded : Journal.added kind p.acts = blocks)
    (hcounters : (window?.map (·.toProgress)).getD {} = .ofRun asked blocks)
    (hanswered : ∀ x ∈ asked, ∃ a, x.reply = .ok a) : p.Tallies kind window? := by
  refine ⟨hcompleted, by rw [hfinalized, hadded], ?_, hasked ▸ hanswered⟩
  rw [hcounters, hfinalized, hasked, List.length_map, List.map_map]
  rfl

/-- **A pass that succeeds tallies**, in both of its windows. -/
theorem tallies_of_succeeded {stats : SyncStats} {stable unstable : Journal} {asked asked' : List Exchange}
    (hstable : stable.Accounts .stable stats.stable asked)
    (hunstable : unstable.Accounts .unstable stats.unstable asked')
    (hacts : p.acts = .event (.syncStarted stats.tip) :: (stable ++ unstable) ++
      [.event (.pendingUpdated stats.pending), .event (.syncCompleted stats.tip)])
    (hfirst : p.stableExchanges = asked) (hall : p.allExchanges = asked ++ asked') (kind : WindowKind) :
    p.Tallies kind (stats.window? kind) := by
  have hrest : p.exchanges .unstable = asked' := by
    rw [exchanges, hfirst, hall, List.drop_left]
  obtain ⟨blocks, hshows, hcounters, hanswered⟩ := hstable
  obtain ⟨blocks', hshows', hcounters', hanswered'⟩ := hunstable
  have hevents : p.events = .syncStarted stats.tip :: (Journal.events stable ++ Journal.events unstable) ++
      [.pendingUpdated stats.pending, .syncCompleted stats.tip] := by
    simp [events, hacts]
  -- the first event and the last two are about no window
  have hcompleted : ∀ k, p.events.filterMap (Event.completed? k) =
      (Journal.events stable).filterMap (Event.completed? k) ++
        (Journal.events unstable).filterMap (Event.completed? k) := by
    intro k
    simp [hevents, List.filterMap_cons, Event.completed?]
  have hfinalized : ∀ k, p.events.filterMap (Event.finalized? k) =
      (Journal.events stable).filterMap (Event.finalized? k) ++
        (Journal.events unstable).filterMap (Event.finalized? k) := by
    intro k
    simp [hevents, List.filterMap_cons, Event.finalized?]
  have hadded : ∀ k, Journal.added k p.acts = Journal.added k stable ++ Journal.added k unstable := by
    intro k
    simp [hacts]
  cases kind with
  | stable =>
      refine .of_blocks hfirst ?_ ?_ ?_ hcounters hanswered
      · simp [hcompleted, hshows.completed, hshows'.completed, SyncStats.window?]
      · simp [hfinalized, hshows.finalized, hshows'.finalized]
      · simp [hadded, hshows.added, hshows'.added]
  | unstable =>
      refine .of_blocks hrest ?_ ?_ ?_ hcounters' hanswered'
      · simp [hcompleted, hshows.completed, hshows'.completed, SyncStats.window?]
      · simp [hfinalized, hshows.finalized, hshows'.finalized]
      · simp [hadded, hshows.added, hshows'.added]

/-- A pass adds its acts to the journal. -/
theorem journal_after : p.after.journal = p.account.journal ++ p.acts := by
  cases p.addition with
  | unanswered _ _ hjournal | stopped _ _ _ _ hjournal | succeeded _ _ _ _ hjournal _ _ =>
      rw [acts_eq hjournal]
      exact hjournal

variable {p} in
/-- When the tip is not told, the pass fails, and this is all it tells. -/
theorem events_of_unanswered (hnone : p.tip? = none) :
    ∃ e, p.outcome = .error (.failed e) ∧ p.events = [.syncFailed e.message] := by
  cases p.addition with
  | @unanswered _ e hfail hjournal => exact ⟨e, hfail, by rw [events, acts_eq hjournal]; rfl⟩
  | stopped htip _ _ _ _ => cases hnone.symm.trans htip
  | succeeded htip _ _ _ _ _ _ => cases hnone.symm.trans htip

variable {p} in
/-- A pass that is stopped has told the first of its events, and then why it is stopped. -/
theorem events_of_error {tip : Nat} (htip : p.tip? = some tip) {stop : Stop}
    (hstop : p.outcome = .error stop) : ∃ told, Event.OpensPass tip told ∧
      p.events = told ++ Journal.events (Action.lastWord (.error stop)) := by
  cases p.addition with
  | unanswered hnone _ _ => cases hnone.symm.trans htip
  | @stopped tip' htip' stop' hstop' stable unstable hstable hunstable hjournal =>
      obtain rfl : tip' = tip := Option.some.inj (htip'.symm.trans htip)
      obtain rfl : stop' = stop := Except.error.inj (hstop'.symm.trans hstop)
      refine ⟨.syncStarted tip' :: (Journal.events stable ++ Journal.events unstable),
        ⟨List.cons_ne_nil _ _, [.pendingUpdated 0, .syncCompleted tip'], 0, List.cons_ne_nil _ _,
          _, _, hstable.events, hunstable.events, rfl⟩, ?_⟩
      simp [events, acts_eq hjournal]
  | succeeded _ hok _ _ _ _ _ => cases hok.symm.trans hstop

variable {p} in
/-- A pass that succeeds has told all of its events, and its summary tallies. -/
theorem events_of_ok {tip : Nat} (htip : p.tip? = some tip) {stats : SyncStats}
    (hok : p.outcome = .ok stats) : stats.tip = tip ∧ Event.OfPass tip stats.pending p.events ∧
      p.allExchanges = p.exchanges .stable ++ p.exchanges .unstable ∧
      ∀ kind, (stats.window? kind).map WindowStats.bounds = p.bounds? tip kind ∧
        p.Tallies kind (stats.window? kind) := by
  cases p.addition with
  | unanswered hnone _ _ => cases hnone.symm.trans htip
  | stopped _ hstop _ _ _ => cases hstop.symm.trans hok
  | @succeeded stats' htip' hok' stable unstable asked asked' hstable hunstable hjournal hfirst hall =>
      have hacts := acts_eq hjournal
      obtain rfl : stats' = stats := Except.ok.inj (hok'.symm.trans hok)
      obtain rfl : stats'.tip = tip := Option.some.inj (htip'.symm.trans htip)
      refine ⟨rfl, ⟨_, _, hstable.isOf.events, hunstable.isOf.events, ?_⟩, ?_,
        fun kind => ⟨bounds_of_ok htip hok kind,
          p.tallies_of_succeeded hstable hunstable hacts hfirst hall kind⟩⟩
      · simp [events, hacts]
      · rw [exchanges, exchanges, hfirst, hall, List.drop_left]

/-- **The events of a pass follow the protocol, and its summary is what happened.**  When the tip is not
told, the pass fails, and this is all it tells.  Otherwise it succeeds with all events of the protocol, or
it fails with the first ones, one or more but not all, and then the failure; an overflow cuts it off after
the first ones, with no last word.  When it succeeds, its requests about transactions are those of the two
windows, and the summary of each window has its bounds and agrees with its events, with the blocks that it
handed over and with its requests.  It does not overflow with room for what it adds up; from a checkpoint
at the last height of 32 bits it does, if it has a stable window, and nothing but its start is told. -/
theorem events_and_tallies :
    p.after.journal = p.account.journal ++ p.acts ∧
      (p.tip? = none → ∃ e, p.outcome = .error (.failed e) ∧ p.events = [.syncFailed e.message]) ∧
      (∀ {tip}, p.tip? = some tip →
        (∀ {e}, p.outcome = .error (.failed e) → ∃ told, Event.OpensPass tip told ∧
          p.events = told ++ [.syncFailed e.message]) ∧
        (p.outcome = .error .overflow → Event.OpensPass tip p.events) ∧
        ∀ {stats}, p.outcome = .ok stats → stats.tip = tip ∧ Event.OfPass tip stats.pending p.events ∧
          p.allExchanges = p.exchanges .stable ++ p.exchanges .unstable ∧
          ∀ kind, (stats.window? kind).map WindowStats.bounds = p.bounds? tip kind ∧
            p.Tallies kind (stats.window? kind)) ∧
      (p.account.HasRoom → p.outcome ≠ .error .overflow) ∧
      ∀ {saved tip}, p.account.checkpoints.load p.account.disk = .ok (some saved) →
        saved.height.toNat + 1 = UInt32.size → p.tip? = some tip → p.depth ≤ tip →
        p.outcome = .error .overflow ∧ p.events = [.syncStarted tip] := by
  refine ⟨p.journal_after, events_of_unanswered, fun {tip} htip => ⟨fun {e} hfail => ?_, fun hover => ?_,
    fun {stats} => events_of_ok htip⟩, outcome_ne_overflow, fun {saved tip} hload hlast htip hdepth => ?_⟩
  · exact events_of_error htip hfail
  · obtain ⟨told, hopens, hevents⟩ := events_of_error htip hover
    rw [hevents]
    exact (List.append_nil told).symm ▸ hopens
  · obtain ⟨hover, hjournal⟩ := overflow_of_lastHeight hload hlast htip hdepth
    exact ⟨hover, by rw [events, acts_eq hjournal]; rfl⟩

/-- The three blocks, from an explorer that does not tell its tip. -/
def tipFails : Explorer Unit :=
  { threeBlocks.explorer 2 with tip := fun s => (.error (.blockNotFound "lost"), s) }

/-- An explorer that answers everything, one that cannot look up a block, and one that does not tell its
tip.  The first pass is told from its start to its end, the second one to the failure after its stable
window, and of the third one only the failure; no explorer makes a pass of this account overflow.  From a
checkpoint at the last height, only the start is told. -/
theorem events_and_tallies_threeBlocks :
    let pass : Explorer Unit → Pass := fun explorer => ⟨Unit, explorer, (), .epoch, twoAddressAccount⟩
    let atLastHeight : Pass := { pass (threeBlocks.explorer 2) with
      account := { twoAddressAccount with checkpoints := .memory (some ⟨4294967295, "h", .epoch⟩) } }
    (∃ stats, (pass (threeBlocks.explorer 2)).outcome = .ok stats ∧
        stats.windows.map (·.toProgress) = [⟨2, 3, 1, 1⟩, ⟨2, 3, 1, 2⟩] ∧
        Event.OfPass 2 stats.pending (pass (threeBlocks.explorer 2)).events ∧
        ∀ kind, (stats.window? kind).map WindowStats.bounds =
            (pass (threeBlocks.explorer 2)).bounds? 2 kind ∧
          (pass (threeBlocks.explorer 2)).Tallies kind (stats.window? kind)) ∧
      (∃ e, (pass lookupFails).outcome = .error (.failed e) ∧ ∃ told, told ≠ [] ∧
        (pass lookupFails).events = told ++ [.syncFailed e.message]) ∧
      (∃ e, (pass tipFails).outcome = .error (.failed e) ∧
        (pass tipFails).events = [.syncFailed e.message]) ∧
      (∀ explorer, (pass explorer).outcome ≠ .error .overflow) ∧
      atLastHeight.outcome = .error .overflow ∧ atLastHeight.events = [.syncStarted 2] := by
  intro pass atLastHeight
  refine ⟨?_, ?_, ?_, fun explorer => ?_, ?_⟩
  · obtain ⟨-, -, htold, -⟩ := (pass (threeBlocks.explorer 2)).events_and_tallies
    obtain ⟨-, -, hok⟩ := htold (show (pass (threeBlocks.explorer 2)).tip? = some 2 from rfl)
    have hstats : (pass (threeBlocks.explorer 2)).outcome.toOption.map
        (fun stats => stats.windows.map (·.toProgress)) = some [⟨2, 3, 1, 1⟩, ⟨2, 3, 1, 2⟩] := by
      decide +kernel
    rcases hrun : (pass (threeBlocks.explorer 2)).outcome with e | stats <;> rw [hrun] at hstats
    · cases hstats
    · obtain ⟨-, hevents, -, htallies⟩ := hok hrun
      exact ⟨stats, rfl, Option.some.inj hstats, hevents, htallies⟩
  · obtain ⟨-, -, htold, -⟩ := (pass lookupFails).events_and_tallies
    obtain ⟨hfailed, -⟩ := htold (show (pass lookupFails).tip? = some 2 from rfl)
    have hfails : (pass lookupFails).outcome =
        .error (.failed (.explorer (.blockNotFound "lost"))) := by
      decide +kernel
    obtain ⟨told, ⟨hne, -⟩, hevents⟩ := hfailed hfails
    exact ⟨_, hfails, told, hne, hevents⟩
  · exact (pass tipFails).events_and_tallies.2.1 rfl
  · have hroom : twoAddressAccount.HasRoom := ⟨fun c => by cases c <;> decide, nofun⟩
    exact (pass explorer).events_and_tallies.2.2.2.1 hroom
  · exact atLastHeight.events_and_tallies.2.2.2.2 rfl rfl rfl (by decide)

/-- With a used address and a gap of almost 32 bits, and with a payment and a gap half as wide, a pass is
told to start, and it has no last word. -/
theorem events_and_tallies_cutOff :
    let pass : Nat → UInt32 → Pass := fun used gap =>
      ⟨Unit, threeBlocks.explorer 2, (), .epoch, { twoAddressAccount with
        config := ⟨1, 1, gap, 2, "g"⟩, chains := ⟨.ofList ["a", "z"] used, .ofList [] 0⟩ }⟩
    ∀ p ∈ [pass 1 4294967295, pass 0 2147483648],
      p.outcome = .error .overflow ∧ p.events = [.syncStarted 2] := by
  intro pass p hp
  simp only [List.mem_cons, List.not_mem_nil, or_false] at hp
  rcases hp with rfl | rfl <;> refine ⟨?_, ?_⟩ <;> decide +kernel

end Pass
end WatchWallet
