import Mathlib.Algebra.GroupWithZero.Nat
import WatchWallet.Proofs.Window.Exchanges
import WatchWallet.Proofs.Window.Interleaving

/-!
# Window — Accounting

What a synchronization leaves in the journal, act by act, and what its summary counts.  In every state of
a run the journal tells exactly the blocks that were handed over (`Run.journal_of_steps`), and at the end
of the run it is closed by the flush and the completion (`Window.closing`).  The summary counts these
blocks and the requests that went out (`Window.accounts_of_synchronize`).
-/

namespace WatchWallet

/-- What is told of a block that is handed over. -/
def FilledBlock.finalized (kind : WindowKind) (b : FilledBlock) : Event :=
  .blockFinalized kind b.height b.transactions.length

/-- Whether the window has heights. -/
def WindowStats.hasHeights (w : WindowStats) : Bool := w.lo ≤ w.hi

/-- The heights that the window lies between. -/
def WindowStats.bounds (w : WindowStats) : Nat × Nat := (w.lo, w.hi)

/-- What is told of a window that has succeeded. -/
def WindowStats.completed (kind : WindowKind) (w : WindowStats) : Event :=
  .windowCompleted kind w.lo w.hi w.blocks

/-- The number of transactions in a reply. -/
def Exchange.received (x : Exchange) : Nat :=
  match x.reply with
  | .ok a => a.transactions.length
  | .error _ => 0

/-- The counters after these requests and these blocks. -/
def Progress.ofRun (exchanges : List Exchange) (blocks : List FilledBlock) : Progress where
  requests := exchanges.length
  received := (exchanges.map Exchange.received).sum
  blocks := blocks.length
  written := (blocks.map (·.transactions.length)).sum

namespace Journal

@[simp] theorem events_append (j j' : Journal) : events (j ++ j') = events j ++ events j' :=
  List.filterMap_append ..

@[simp] theorem events_nil : events [] = [] := rfl

@[simp] theorem events_cons_event (e : Event) (j : Journal) :
    events (.event e :: j) = e :: events j := rfl

@[simp] theorem added_nil (kind : WindowKind) : added kind [] = [] := rfl

@[simp] theorem added_cons_event (kind : WindowKind) (e : Event) (j : Journal) :
    added kind (.event e :: j) = added kind j := rfl

/-- These acts hand over the blocks of a window, in ascending order, each with its event, and tell of the
completion of the window, if it is complete.  They hand over no other block and tell of nothing else. -/
structure Shows (kind : WindowKind) (blocks : List FilledBlock) (completed? : Option WindowStats)
    (acts : Journal) : Prop where
  ascending : (blocks.map FilledBlock.height).Pairwise (· < ·)
  events : Journal.events acts =
    blocks.map (FilledBlock.finalized kind) ++ (completed?.map (WindowStats.completed kind)).toList
  added : ∀ k, Journal.added k acts = if k = kind then blocks else []

/-- Nothing is shown where nothing is done. -/
theorem Shows.nil (kind : WindowKind) : Shows kind [] none [] :=
  ⟨.nil, rfl, fun _ => (ite_self _).symm⟩

/-- These acts are about a window only, and come from one synchronization of it. -/
def IsOf (kind : WindowKind) (acts : Journal) : Prop :=
  ∃ blocks completed?, acts.Shows kind blocks completed?

/-- The summary of a window accounts for these acts and requests: it counts them, a window with heights is
told complete, and every request was answered. -/
def Accounts (kind : WindowKind) (window? : Option WindowStats) (acts : Journal)
    (exchanges : List Exchange) : Prop :=
  ∃ blocks, acts.Shows kind blocks (window?.filter WindowStats.hasHeights) ∧
    (window?.map (·.toProgress)).getD {} = .ofRun exchanges blocks ∧
    ∀ x ∈ exchanges, ∃ a, x.reply = .ok a

theorem Accounts.isOf {kind : WindowKind} {window? : Option WindowStats} {acts : Journal}
    {exchanges : List Exchange} (h : Accounts kind window? acts exchanges) : acts.IsOf kind := by
  obtain ⟨blocks, hshows, -⟩ := h
  exact ⟨blocks, _, hshows⟩

/-- Without a window, nothing is done. -/
theorem Accounts.none (kind : WindowKind) : Accounts kind none [] [] :=
  ⟨[], .nil kind, rfl, fun _ hx => absurd hx List.not_mem_nil⟩

/-- Without heights, nothing is done. -/
theorem Accounts.idle (kind : WindowKind) {lo hi : Nat} (hlt : hi < lo) :
    Accounts kind (some (.idle lo hi)) [] [] := by
  have hnone : (some (WindowStats.idle lo hi)).filter WindowStats.hasHeights = Option.none :=
    Option.filter_some_neg (decide_eq_false (Nat.not_le.2 hlt))
  exact ⟨[], hnone ▸ .nil kind, rfl, fun _ hx => absurd hx List.not_mem_nil⟩

/-- A removal shows nothing. -/
theorem Shows.cons_removedFrom {kind kind' : WindowKind} {blocks : List FilledBlock}
    {completed? : Option WindowStats} {acts : Journal} (h : Shows kind blocks completed? acts)
    (height : Nat) : Shows kind blocks completed? (.removedFrom kind' height :: acts) :=
  ⟨h.ascending, h.events, h.added⟩

end Journal

namespace FilledBlock

/-- A block is handed to the store, and this is told. -/
def handOver (kind : WindowKind) (b : FilledBlock) : Journal :=
  [.added kind b, .event (b.finalized kind)]

theorem events_handOver (kind : WindowKind) (blocks : List FilledBlock) :
    Journal.events (blocks.flatMap (handOver kind)) = blocks.map (finalized kind) := by
  induction blocks with
  | nil => rfl
  | cons b blocks ih =>
      rw [List.flatMap_cons, Journal.events_append, ih]
      rfl

theorem added_handOver (kind k : WindowKind) (blocks : List FilledBlock) :
    Journal.added k (blocks.flatMap (handOver kind)) = if k = kind then blocks else [] := by
  induction blocks with
  | nil => exact (ite_self _).symm
  | cons b blocks ih =>
      rw [List.flatMap_cons, Journal.added_append, ih]
      by_cases hk : k = kind
      · subst hk
        simp [handOver, Journal.added]
      · simp [handOver, Journal.added, hk, Ne.symm hk]

end FilledBlock

namespace Run

variable {replies : Replies} {w : Window} {config : SyncConfig} {first : Option String} {lo hi : Nat}
  {r : Run}

/-- The block of a height is told with this height. -/
theorem Sound.journal_storeBlock (hs : Sound lo hi r) (kind : WindowKind) (k : Nat) :
    (r.scan.storeBlock kind k).journal =
      r.scan.journal ++ (r.scan.blockAt? k).toList.flatMap (FilledBlock.handOver kind) := by
  unfold Scan.storeBlock
  cases hblock : r.scan.blockAt? k with
  | none => exact (List.append_nil _).symm
  | some block =>
      have hheight := (hs.of_blockAt? hblock).1
      simp [FilledBlock.handOver, FilledBlock.finalized, hheight]

/-- **The journal tells what was handed over**, in every state that a run reaches. -/
theorem journal_of_steps (h : Steps (w.plan config) replies (start w config first lo hi) r) :
    r.scan.journal = w.journal ++ r.stored.flatMap (FilledBlock.handOver w.kind) := by
  refine (h.keep (P := fun r => Sound lo hi r ∧
    r.scan.journal = w.journal ++ r.stored.flatMap (FilledBlock.handOver w.kind))
    (fun {r r'} hr hstep => ⟨hr.1.step hstep, ?_⟩)
    ⟨sound_start w config first lo hi, (List.append_nil _).symm⟩).2
  obtain ⟨hs, hjournal⟩ := hr
  cases hstep with
  | @store scan out t k log =>
      rw [stored_concat, List.flatMap_append, ← List.append_assoc]
      exact (hs.journal_storeBlock w.kind k).trans (congrArg (· ++ _) hjournal)
  | answer _ _ | report _ _ | complete _ _ | settle =>
      rw [stored_concat, Move.stored?, Option.toList_none, List.append_nil]
      exact hjournal
  | done _ => exact hjournal

/-- The counters of a run count what was asked and what was handed over. -/
theorem progress_of_steps (h : Steps (w.plan config) replies (start w config first lo hi) r) :
    r.scan.progress = .ofRun (r.answered.map Answered.exchange) r.stored := by
  rw [(tally_of_steps h).progress, Progress.ofRun, List.length_map, List.length_flatMap,
    List.length_flatMap, List.map_map]
  rfl

end Run

/-- The summary of a synchronization has its bounds. -/
theorem Window.bounds_of_synchronize {σ : Type} {explorer : Explorer σ} {config : SyncConfig}
    {first : Option String} {w w' : Window} {lo hi : Nat} {s s' : σ} {stats : WindowStats}
    (h : w.synchronize explorer config first lo hi s = (.ok stats, w', s')) : stats.bounds = (lo, hi) := by
  rcases Nat.lt_or_ge hi lo with hlt | hle
  · rw [w.synchronize_of_lt explorer config first hlt] at h
    cases h
    rfl
  · have hkeeps : explorer.Keeps fun _ _ _ => True := fun _ => trivial
    obtain ⟨r, joined, -, -, -, -, -, hresult⟩ :=
      Run.ends_of_synchronize hkeeps explorer.tells_true trivial hle h
    rcases joined with stop | u
    · cases hresult
    · rw [outcome] at hresult
      rcases hflushed : (r.scan.store.flush w.disk).1 with e | u <;> rw [hflushed] at hresult <;>
        cases hresult
      rfl

/-- **A synchronization accounts for what it does**, whatever the explorer answers and whatever becomes of
the flush. -/
theorem Window.accounts_of_synchronize {σ : Type} (w : Window) (explorer : Explorer σ)
    (config : SyncConfig) (first : Option String) (lo hi : Nat) (s : σ) (before : List Exchange) :
    let done := w.synchronize explorer.recorded config first lo hi (s, before)
    ∃ acts exchanges, done.2.1.journal = w.journal ++ acts ∧ done.2.2.2 = before ++ exchanges ∧
      match done.1 with
      | .ok stats => acts.Accounts w.kind (some stats) exchanges
      | .error _ => acts.IsOf w.kind := by
  intro done
  rcases Nat.lt_or_ge hi lo with hlt | hle
  · rw [show done = _ from w.synchronize_of_lt explorer.recorded config first hlt (s, before)]
    exact ⟨[], [], (List.append_nil _).symm, (List.append_nil _).symm, .idle w.kind hlt⟩
  rw [show done = _ from w.synchronize_recorded_append explorer config first lo hi s before]
  rcases hrun : w.synchronize explorer.recorded config first lo hi (s, []) with
    ⟨result, w', s', exchanges⟩
  have hkeeps : explorer.Keeps fun _ _ _ => True := fun _ => trivial
  obtain ⟨r, hsteps, -, -, hjournal, hconcludes⟩ := Run.concludes_of_synchronize hkeeps hle hrun
  refine ⟨r.stored.flatMap (FilledBlock.handOver w.kind) ++ closing w.kind result, exchanges, ?_, rfl, ?_⟩
  · rw [← List.append_assoc, ← Run.journal_of_steps hsteps]
    exact hjournal
  have hshows : ∀ {completed? : Option WindowStats} {closing : Journal},
      Journal.events closing = (completed?.map (WindowStats.completed w.kind)).toList →
      (∀ k, Journal.added k closing = []) →
      Journal.Shows w.kind r.stored completed?
        (r.stored.flatMap (FilledBlock.handOver w.kind) ++ closing) := by
    intro completed? closing hevents hadded
    refine ⟨(Run.inOrder_of_steps hsteps).2.ascending, ?_, fun k => ?_⟩
    · rw [Journal.events_append, FilledBlock.events_handOver, hevents]
    · rw [Journal.added_append, FilledBlock.added_handOver, hadded, List.append_nil]
  cases hconcludes with
  | unfit _ _ => exact ⟨r.stored, none, hshows rfl fun _ => rfl⟩
  | @failed _ _ stop _ _ =>
      refine ⟨r.stored, none, ?_⟩
      cases stop with
      | failed e => exact hshows rfl fun _ => rfl
      | overflow => exact hshows rfl fun _ => rfl
  | joined _ hout =>
      rcases (r.scan.store.flush w.disk).1 with e | u
      · exact ⟨r.stored, none, hshows rfl fun _ => rfl⟩
      · have hheights : WindowStats.hasHeights { r.scan.progress with lo, hi } = true :=
          decide_eq_true hle
        refine ⟨r.stored, ?_, Run.progress_of_steps hsteps, fun x hx => ?_⟩
        · rw [Option.filter_some_pos hheights]
          exact hshows rfl fun _ => rfl
        · obtain ⟨y, -, rfl⟩ := List.mem_map.1 hx
          exact ⟨y.answer, rfl⟩

end WatchWallet
