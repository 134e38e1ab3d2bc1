import WatchWallet.Proofs.Schedule
import WatchWallet.Proofs.Store.Blocks
import WatchWallet.Proofs.Window.Heights
import WatchWallet.Window.Synchronize

/-!
# Window — Run

The run of a window in small steps.  Any task that is out may be answered next, by any answer that
the explorer may give; the task then reports on its heights one by one, and the report that
completes a height is followed by the hand-over of its block.  A run keeps a log of its moves.  What
a step does to the tasks that are out, and to what was found, is its effect (`Step.effect`).

A synchronization is such a run, whatever the explorer answers and however long its answers take
(`ends_of_synchronize`): a statement about every state that the steps reach is one about every
interleaving.

An answer that the next gap batch overflows after is not taken in: this ends the synchronization there
and then (`Run.Ends`), and its store is not flushed (`Window.Leaves`).
-/

namespace WatchWallet

/-- Which answers may come to a request for these addresses from this block on. -/
abbrev Replies := List String → Option String → Answer → Prop

/-- The explorer gives no other answers about transactions. -/
def Explorer.Keeps {σ : Type} (explorer : Explorer σ) (replies : Replies) : Prop :=
  ∀ {addresses start s a s'}, explorer.transactions addresses start s = (.ok a, s') →
    replies addresses start a

/-- What a run is at. -/
inductive Stage where
  /-- Every task that is out waits for its answer. -/
  | waiting
  /-- The answer of a task is taken in, and the task has reported below the height `next`. -/
  | reporting (t : Task) (next : Nat)
  /-- A report has completed the height, whose block is still in its bucket. -/
  | storing (t : Task) (height : Nat)
  /-- The block of the height is with the store. -/
  | settling (t : Task) (height : Nat)

/-- What a run has done. -/
inductive Move where
  | launch (tasks : List Task)
  /-- The answer, and the tasks that follow from it. -/
  | answer (t : Task) (a : Answer) (tasks : List Task)
  | report (t : Task) (height : Nat)
  /-- The block of a height is handed over, if there is one. -/
  | store (height : Nat) (block? : Option FilledBlock)
  | settle (height : Nat)

/-- The tasks that a move registers. -/
def Move.launched : Move → List Task
  | launch tasks | answer _ _ tasks => tasks
  | report _ _ | store _ _ | settle _ => []

/-- The task that reports on a height in a move. -/
def Move.reporter? (h : Nat) : Move → Option Task
  | report t k => if k = h then some t else none
  | launch _ | answer _ _ _ | store _ _ | settle _ => none

/-- The block that a move hands over. -/
def Move.stored? : Move → Option FilledBlock
  | store _ block? => block?
  | launch _ | answer _ _ _ | report _ _ | settle _ => none

/-- A task with the answer that it took in. -/
structure Answered where
  task : Task
  answer : Answer

/-- The answer that a move takes in. -/
def Move.answered? : Move → Option Answered
  | answer t a _ => some ⟨t, a⟩
  | launch _ | report _ _ | store _ _ | settle _ => none

/-- A state of a run. -/
structure Run where
  scan : Scan
  /-- The tasks that wait for their answers. -/
  out : List Task
  stage : Stage
  log : List Move

/-- The scan after an answer, before its task reports. -/
def Scan.takeIn (s : Scan) (p : Plan) (t : Task) (f : Finding) (a : Answer) : Scan :=
  ({ s with progress := s.progress.countRequest a.transactions.length }.accept t.chain
    (t.accepted f a)).launch (t.children p f)

/-- A window starts with the live first batches of its chains, each asked for all heights. -/
theorem Window.mem_bootstrap {w : Window} {config : SyncConfig} {first : Option String}
    {lo hi : Nat} {t : Task} : t ∈ w.bootstrap config first lo hi ↔
      (∃ c b, b ∈ Batch.bootstrap (w.chains.get c) config.batchSize.toNat config.gapSize.toNat ∧
        t = ⟨c, b, first, lo, hi⟩) ∧ t.isLive = true := by
  rw [bootstrap, List.mem_filter, List.mem_flatMap]
  refine and_congr_left fun _ => ?_
  constructor
  · rintro ⟨c, -, ht⟩
    obtain ⟨b, hb, rfl⟩ := List.mem_map.1 ht
    exact ⟨c, b, hb, rfl⟩
  · rintro ⟨c, b, hb, rfl⟩
    exact ⟨c, by cases c <;> simp, List.mem_map.2 ⟨b, hb, rfl⟩⟩

namespace Run

/-- Every task that was ever registered. -/
def launched (r : Run) : List Task := r.log.flatMap Move.launched

/-- The blocks handed over so far, in order. -/
def stored (r : Run) : List FilledBlock := r.log.filterMap Move.stored?

/-- The tasks that have reported on a height. -/
def reportsOn (r : Run) (h : Nat) : List Task := r.log.filterMap (Move.reporter? h)

/-- The tasks that were answered, with their answers, in order. -/
def answered (r : Run) : List Answered := r.log.filterMap Move.answered?

/-- The state in which a synchronization sends its first requests. -/
def start (w : Window) (config : SyncConfig) (start : Option String) (lo hi : Nat) : Run :=
  let tasks := w.bootstrap config start lo hi
  ⟨(w.scan lo hi).launch tasks, tasks, .waiting, [.launch tasks]⟩

/-- One step.  `p` is the plan of the run and `replies` are the answers that may come. -/
inductive Step (p : Plan) (replies : Replies) : Run → Run → Prop where
  | answer {scan : Scan} {before after : List Task} {t : Task} {log : List Move} {a : Answer}
      {f : Finding} (hreply : replies t.batch.addresses t.start a) (hjudge : t.judge a = .ok f)
      (hfits : t.overflows p f = false) :
      Step p replies ⟨scan, before ++ t :: after, .waiting, log⟩
        ⟨scan.takeIn p t f a, before ++ t.children p f ++ after, .reporting t t.lo,
          log ++ [.answer t a (t.children p f)]⟩
  | report {scan : Scan} {out : List Task} {t : Task} {h : Nat} {log : List Move}
      (hle : h ≤ t.hi) (hlast : scan.tracker.isLast h = false) :
      Step p replies ⟨scan, out, .reporting t h, log⟩
        ⟨scan.track (·.report h), out, .reporting t (h + 1), log ++ [.report t h]⟩
  | complete {scan : Scan} {out : List Task} {t : Task} {h : Nat} {log : List Move}
      (hle : h ≤ t.hi) (hlast : scan.tracker.isLast h = true) :
      Step p replies ⟨scan, out, .reporting t h, log⟩
        ⟨scan.track (·.report h), out, .storing t h, log ++ [.report t h]⟩
  | store {scan : Scan} {out : List Task} {t : Task} {h : Nat} {log : List Move} :
      Step p replies ⟨scan, out, .storing t h, log⟩
        ⟨scan.storeBlock p.kind h, out, .settling t h, log ++ [.store h (scan.blockAt? h)]⟩
  | settle {scan : Scan} {out : List Task} {t : Task} {h : Nat} {log : List Move} :
      Step p replies ⟨scan, out, .settling t h, log⟩
        ⟨scan.track (·.settle h), out, .reporting t (h + 1), log ++ [.settle h]⟩
  | done {scan : Scan} {out : List Task} {t : Task} {h : Nat} {log : List Move} (hlt : t.hi < h) :
      Step p replies ⟨scan, out, .reporting t h, log⟩ ⟨scan, out, .waiting, log⟩

/-- Any number of steps. -/
inductive Steps (p : Plan) (replies : Replies) : Run → Run → Prop where
  | refl (r : Run) : Steps p replies r r
  | more {r r₁ r' : Run} (h : Step p replies r r₁) (t : Steps p replies r₁ r') :
      Steps p replies r r'

variable {p : Plan} {replies : Replies}

theorem Steps.one {r r' : Run} (h : Step p replies r r') : Steps p replies r r' :=
  .more h (.refl _)

theorem Steps.trans {r r₁ r' : Run} (h₁ : Steps p replies r r₁) (h₂ : Steps p replies r₁ r') :
    Steps p replies r r' := by
  induction h₁ with
  | refl => exact h₂
  | more h _ ih => exact .more h (ih h₂)

/-- What every step keeps holds in every state that a run reaches. -/
theorem Steps.keep {P : Run → Prop} (hP : ∀ {r r'}, P r → Step p replies r r' → P r') {r r' : Run}
    (h : Steps p replies r r') (hr : P r) : P r' := by
  induction h with
  | refl => exact hr
  | more h _ ih => exact ih (hP hr h)

/-! ### The log -/

@[simp] theorem launched_concat (scan : Scan) (out : List Task) (stage : Stage) (log : List Move)
    (m : Move) : launched ⟨scan, out, stage, log ++ [m]⟩ =
      launched ⟨scan, out, stage, log⟩ ++ m.launched := by
  simp [launched]

@[simp] theorem reportsOn_concat (scan : Scan) (out : List Task) (stage : Stage) (log : List Move)
    (m : Move) (h : Nat) : reportsOn ⟨scan, out, stage, log ++ [m]⟩ h =
      reportsOn ⟨scan, out, stage, log⟩ h ++ (m.reporter? h).toList := by
  cases hm : m.reporter? h <;> simp [reportsOn, hm]

@[simp] theorem stored_concat (scan : Scan) (out : List Task) (stage : Stage) (log : List Move)
    (m : Move) : stored ⟨scan, out, stage, log ++ [m]⟩ =
      stored ⟨scan, out, stage, log⟩ ++ m.stored?.toList := by
  cases hm : m.stored? <;> simp [stored, hm]

@[simp] theorem answered_concat (scan : Scan) (out : List Task) (stage : Stage) (log : List Move)
    (m : Move) : answered ⟨scan, out, stage, log ++ [m]⟩ =
      answered ⟨scan, out, stage, log⟩ ++ m.answered?.toList := by
  cases hm : m.answered? <;> simp [answered, hm]

@[simp] theorem launched_start (w : Window) (config : SyncConfig) (first : Option String)
    (lo hi : Nat) : (start w config first lo hi).launched = w.bootstrap config first lo hi :=
  List.append_nil _

@[simp] theorem stored_start (w : Window) (config : SyncConfig) (first : Option String)
    (lo hi : Nat) : (start w config first lo hi).stored = [] := rfl

end Run

/-! ### The effect of a step -/

namespace Scan

variable (s : Scan) (kind : WindowKind) (k : Nat)

@[simp] theorem chains_storeBlock : (s.storeBlock kind k).chains = s.chains := by
  unfold storeBlock
  split <;> rfl

@[simp] theorem tracker_storeBlock : (s.storeBlock kind k).tracker = s.tracker := by
  unfold storeBlock
  split <;> rfl

@[simp] theorem buckets_storeBlock : (s.storeBlock kind k).buckets = s.buckets.remove k := by
  unfold storeBlock
  split <;> rfl

theorem store_storeBlock :
    (s.storeBlock kind k).store = (s.blockAt? k).toList.foldl BlockStore.add s.store := by
  unfold storeBlock
  split <;> simp_all

theorem state?_takeIn (p : Plan) (t : Task) (f : Finding) (a : Answer) (h : Nat) :
    (s.takeIn p t f a).tracker.state? h =
      (s.tracker.state? h).map (·.registerMany ((t.children p f).countP (Task.covers h))) :=
  Tracker.state?_registerAll ..

theorem state?_track_report (h : Nat) : (s.track (·.report k)).tracker.state? h =
    if h = k then (s.tracker.state? h).map .report else s.tracker.state? h :=
  Tracker.state?_report ..

theorem state?_track_settle (h : Nat) : (s.track (·.settle k)).tracker.state? h =
    if h = k then (s.tracker.state? h).map .settle else s.tracker.state? h :=
  Tracker.state?_settle ..

@[simp] theorem tracker_track (f : Tracker → Tracker) : (s.track f).tracker = f s.tracker := rfl

@[simp] theorem isComplete_takeIn (p : Plan) (t : Task) (f : Finding) (a : Answer) (h : Nat) :
    (s.takeIn p t f a).tracker.isComplete h = s.tracker.isComplete h :=
  Tracker.isComplete_eq_of_map (s.state?_takeIn p t f a h) fun _ =>
    HeightState.isComplete_registerMany ..

theorem progress_storeBlock : (s.storeBlock kind k).progress =
    (s.blockAt? k).toList.foldl (fun p b => p.countBlock b.transactions.length) s.progress := by
  unfold storeBlock
  split <;> simp_all

end Scan

namespace Run

/-- What a step does to the tasks that are out, and to what was found, counted and handed over. -/
inductive Effect (p : Plan) (replies : Replies) (r r' : Run) : Prop where
  | answer {before after : List Task} {t : Task} {a : Answer} {f : Finding}
      (hreply : replies t.batch.addresses t.start a) (hjudge : t.judge a = .ok f)
      (hout : r.out = before ++ t :: after) (hout' : r'.out = before ++ t.children p f ++ after)
      (hbuckets : r'.scan.buckets = r.scan.buckets.addAll (t.accepted f a))
      (hchains : r'.scan.chains = r.scan.chains.update t.chain
        (·.markAll ((t.accepted f a).flatMap (·.paidAddresses))))
      (hstored : r'.stored = r.stored) (hanswered : r'.answered = r.answered ++ [⟨t, a⟩])
      (hprogress : r'.scan.progress = r.scan.progress.countRequest a.transactions.length)
      (hfits : t.overflows p f = false)
  | store {k : Nat} (hout : r'.out = r.out) (hbuckets : r'.scan.buckets = r.scan.buckets.remove k)
      (hchains : r'.scan.chains = r.scan.chains)
      (hstored : r'.stored = r.stored ++ (r.scan.blockAt? k).toList)
      (hanswered : r'.answered = r.answered)
      (hprogress : r'.scan.progress = (r.scan.blockAt? k).toList.foldl
        (fun p b => p.countBlock b.transactions.length) r.scan.progress)
      (hstage : ∃ t, r.stage = .storing t k)
  | none (hout : r'.out = r.out) (hbuckets : r'.scan.buckets = r.scan.buckets)
      (hchains : r'.scan.chains = r.scan.chains) (hstored : r'.stored = r.stored)
      (hanswered : r'.answered = r.answered) (hprogress : r'.scan.progress = r.scan.progress)

theorem Step.effect {p : Plan} {replies : Replies} {r r' : Run} (h : Step p replies r r') :
    Effect p replies r r' := by
  cases h with
  | answer hreply hjudge hfits =>
      exact .answer hreply hjudge rfl rfl rfl rfl (by simp [Move.stored?, stored])
        (by rw [answered_concat]; rfl) rfl hfits
  | store =>
      exact .store rfl (Scan.buckets_storeBlock ..) (Scan.chains_storeBlock ..)
        (by rw [stored_concat]; rfl) (by simp [Move.answered?, answered])
        (Scan.progress_storeBlock ..) ⟨_, rfl⟩
  | report _ _ | complete _ _ | settle =>
      exact .none rfl rfl rfl (by simp [Move.stored?, stored]) (by simp [Move.answered?, answered]) rfl
  | done _ => exact .none rfl rfl rfl rfl rfl rfl

/-- **A step completes a height by the last report on it**, and what follows is the hand-over of its
block. -/
theorem Step.isComplete_iff {p : Plan} {replies : Replies} {r r' : Run} (h : Step p replies r r')
    {x : Nat} : r'.scan.tracker.isComplete x = true ↔ r.scan.tracker.isComplete x = true ∨
      ∃ t, r.stage = .reporting t x ∧ r'.stage = .storing t x := by
  cases h with
  | answer _ _ => simp
  | report _ hlast =>
      simp only [Scan.tracker_track, Tracker.isComplete_report, Bool.or_eq_true, Bool.and_eq_true,
        beq_iff_eq]
      refine or_congr_right ⟨?_, fun ⟨_, _, hstage⟩ => nomatch hstage⟩
      rintro ⟨rfl, hx⟩
      rw [hlast] at hx
      cases hx
  | complete _ hlast =>
      simp only [Scan.tracker_track, Tracker.isComplete_report, Bool.or_eq_true, Bool.and_eq_true,
        beq_iff_eq]
      refine or_congr_right ⟨?_, ?_⟩
      · rintro ⟨rfl, -⟩
        exact ⟨_, rfl, rfl⟩
      · rintro ⟨_, hstage, -⟩
        cases hstage
        exact ⟨rfl, hlast⟩
  | store => simp
  | settle => simp [Tracker.isComplete_settle]
  | done _ => simp

/-- With an answer, its task is out no more, and every other one stays out. -/
theorem eq_or_mem_out {r r' : Run} {before after kids : List Task} {t c : Task}
    (hout : r.out = before ++ t :: after) (hout' : r'.out = before ++ kids ++ after)
    (hc : c ∈ r.out) : c = t ∨ c ∈ r'.out := by
  rw [hout, List.mem_append, List.mem_cons] at hc
  rw [hout', List.mem_append, List.mem_append]
  rcases hc with hbefore | rfl | hafter
  · exact .inr (.inl (.inl hbefore))
  · exact .inl rfl
  · exact .inr (.inr hafter)

/-! ### A synchronization takes these steps -/

/-- A task reports on one height. -/
theorem steps_report (p : Plan) (replies : Replies) (scan : Scan) (out : List Task) {t : Task}
    {h : Nat} (log : List Move) (hle : h ≤ t.hi) :
    ∃ log', Steps p replies ⟨scan, out, .reporting t h, log⟩
        ⟨scan.report p.kind h, out, .reporting t (h + 1), log'⟩ ∧
      log'.filterMap Move.answered? = log.filterMap Move.answered? := by
  unfold Scan.report
  cases hlast : scan.tracker.isLast h with
  | false => exact ⟨_, .one (.report hle hlast), by simp [Move.answered?]⟩
  | true =>
      exact ⟨_, .more (.complete hle hlast) (.more .store (.one .settle)), by simp [Move.answered?]⟩

theorem steps_reportAll (p : Plan) (replies : Replies) (n : Nat) (scan : Scan) (out : List Task)
    {t : Task} {h : Nat} (log : List Move) (hn : t.hi + 1 - h = n) :
    ∃ log', Steps p replies ⟨scan, out, .reporting t h, log⟩
        ⟨scan.reportAll p.kind h t.hi, out, .waiting, log'⟩ ∧
      log'.filterMap Move.answered? = log.filterMap Move.answered? := by
  unfold Scan.reportAll
  induction n generalizing scan h log with
  | zero =>
      rw [hn]
      exact ⟨log, .one (.done (by omega)), rfl⟩
  | succ n ih =>
      obtain ⟨log₁, h₁, hsame₁⟩ := steps_report p replies scan out log (show h ≤ t.hi by omega)
      obtain ⟨log₂, h₂, hsame₂⟩ :=
        ih (scan.report p.kind h) log₁ (show t.hi + 1 - (h + 1) = n by omega)
      rw [show t.hi + 1 - (h + 1) = n by omega] at h₂
      rw [hn, List.range'_succ, List.foldl_cons]
      exact ⟨log₂, h₁.trans h₂, hsame₂.trans hsame₁⟩

/-- The effect of an answer is an answer step and the reports of its task. -/
theorem steps_absorb {scan scan' : Scan} {t : Task} {a : Answer} {tasks : List Task}
    (before after : List Task) (log : List Move) (hreply : replies t.batch.addresses t.start a)
    (h : scan.absorb p t a = .ok (scan', tasks)) :
    ∃ log', Steps p replies ⟨scan, before ++ t :: after, .waiting, log⟩
        ⟨scan', before ++ tasks ++ after, .waiting, log'⟩ ∧
      log'.filterMap Move.answered? = log.filterMap Move.answered? ++ [⟨t, a⟩] := by
  unfold Scan.absorb at h
  cases htake : t.take p a with
  | error stop => rw [htake] at h; cases h
  | ok f =>
      rw [htake] at h
      cases h
      obtain ⟨hjudge, hfits⟩ := Task.take_eq_ok_iff.1 htake
      obtain ⟨log', hreports, hsame⟩ := steps_reportAll p replies _ (scan.takeIn p t f a)
        (before ++ t.children p f ++ after) (log ++ [.answer t a (t.children p f)]) rfl
      exact ⟨log', .more (.answer hreply hjudge hfits) hreports, by simp [hsame, Move.answered?]⟩

/-- An answer that is taken in comes from the explorer. -/
theorem absorb_of_ask {σ : Type} {explorer : Explorer σ} {t : Task} {scan scan' : Scan} {s s' : σ}
    {tasks : List Task} (h : Scan.ask explorer p t scan s = (.ok (scan', tasks), s')) :
    ∃ a, explorer.transactions t.batch.addresses t.start s = (.ok a, s') ∧
      scan.absorb p t a = .ok (scan', tasks) := by
  unfold Scan.ask at h
  split at h
  · cases h
  · rename_i a s₁ hasked
    obtain ⟨habsorb, rfl⟩ := Prod.mk.inj h
    exact ⟨a, hasked, habsorb⟩

/-- A run on a window has come to an end in some state of the explorer: its first batches could not be
derived, no task is out, or one that is out could not take in the reply to it.  `Q` is what the
explorer tells of the answers before. -/
inductive Ends {σ : Type} (explorer : Explorer σ) (w : Window) (config : SyncConfig)
    (Q : List Answered → σ → Prop) (r : Run) : Except Stop Unit → σ → Prop where
  | unfit {s : σ} (hfits : w.fits config = false) (hanswered : r.answered = [])
      (h : Q r.answered s) : Ends explorer w config Q r (.error .overflow) s
  | done {s : σ} (hfits : w.fits config = true) (hout : r.out = []) (h : Q r.answered s) :
      Ends explorer w config Q r (.ok ()) s
  | failed {t : Task} {s s' : σ} {stop : Stop} (hmem : t ∈ r.out) (h : Q r.answered s)
      (hfail : Scan.ask explorer (w.plan config) t r.scan s = (.error stop, s')) :
      Ends explorer w config Q r (.error stop) s'

end Run

/-- The state of the explorer tells something of the answers so far. -/
structure Explorer.Tells {σ : Type} (explorer : Explorer σ) (Q : List Answered → σ → Prop) :
    Prop where
  delay : ∀ {answered s}, Q answered s → Q answered (explorer.delay s).2
  answer : ∀ {answered s t a s'}, Q answered s →
    explorer.transactions t.batch.addresses t.start s = (.ok a, s') → Q (answered ++ [⟨t, a⟩]) s'

theorem Explorer.tells_true {σ : Type} (explorer : Explorer σ) :
    explorer.Tells fun _ _ => True :=
  ⟨id, fun _ _ => trivial⟩

namespace Run

section Reaches

variable {σ : Type} {explorer : Explorer σ} {p : Plan} {replies : Replies}
  {Q : List Answered → σ → Prop} {r : Run} {out : List Task} {scan : Scan} {s : σ}

/-- Steps lead from a run to this scan, with these tasks out, and the state of the explorer tells of
the answers on the way. -/
def Reaches (p : Plan) (replies : Replies) (Q : List Answered → σ → Prop) (r : Run) (out : List Task)
    (scan : Scan) (s : σ) : Prop :=
  ∃ log, Steps p replies r ⟨scan, out, .waiting, log⟩ ∧ Q (log.filterMap Move.answered?) s

theorem Reaches.delay (htells : explorer.Tells Q) (h : Reaches p replies Q r out scan s) :
    Reaches p replies Q r out scan (explorer.delay s).2 := by
  obtain ⟨log, hsteps, hQ⟩ := h
  exact ⟨log, hsteps, htells.delay hQ⟩

theorem Reaches.ask (hkeeps : explorer.Keeps replies) (htells : explorer.Tells Q)
    {before after kids : List Task} {t : Task} {scan' : Scan} {s' : σ}
    (h : Reaches p replies Q r (before ++ t :: after) scan s)
    (hasked : Scan.ask explorer p t scan s = (.ok (scan', kids), s')) :
    Reaches p replies Q r (before ++ kids ++ after) scan' s' := by
  obtain ⟨log, hsteps, hQ⟩ := h
  obtain ⟨a, hreply, habsorb⟩ := absorb_of_ask hasked
  obtain ⟨log', hsteps', hlog⟩ := steps_absorb before after log (hkeeps hreply) habsorb
  exact ⟨log', hsteps.trans hsteps', hlog ▸ htells.answer hQ hreply⟩

end Reaches

/-- The schedule of a window takes these steps. -/
theorem steps_of_runAll {σ : Type} {explorer : Explorer σ} {w : Window} {config : SyncConfig}
    {replies : Replies} {Q : List Answered → σ → Prop} (hkeeps : explorer.Keeps replies)
    (htells : explorer.Tells Q) (hfits : w.fits config = true) (first : Option String) (lo hi : Nat)
    {s : σ} (hQ : Q [] s) :
    ∃ r joined s', Schedule.runAll (Scan.service explorer (w.plan config))
        (w.bootstrap config first lo hi) ((w.scan lo hi).launch (w.bootstrap config first lo hi)) s =
          (joined, r.scan, s') ∧
      Steps (w.plan config) replies (start w config first lo hi) r ∧ r.stage = .waiting ∧
      r.Ends explorer w config Q joined s' := by
  have hfirst : ((w.bootstrap config first lo hi).map (Schedule.fresh 0)).map (·.task) =
      w.bootstrap config first lo hi := by
    simp [Function.comp_def, Schedule.fresh]
  have hends := Schedule.run_ends (Scan.service explorer (w.plan config))
    (P := Reaches (w.plan config) replies Q (start w config first lo hi)) (fun h => h.delay htells)
    (fun h hasked => h.ask hkeeps htells hasked)
    ((w.bootstrap config first lo hi).map (Schedule.fresh 0))
    ((w.scan lo hi).launch (w.bootstrap config first lo hi)) s
    (by rw [hfirst]; exact ⟨[.launch (w.bootstrap config first lo hi)], .refl _, hQ⟩)
  unfold Schedule.runAll
  generalize Schedule.run (Scan.service explorer (w.plan config)) _ _ s = ran at hends
  cases hends with
  | @done scan' s' h =>
      obtain ⟨log', hsteps, hQ'⟩ := h
      exact ⟨_, _, _, rfl, hsteps, rfl, .done hfits rfl hQ'⟩
  | @failed left t scan' s₁ s' stop h hmem hfail =>
      obtain ⟨log', hsteps, hQ'⟩ := h
      exact ⟨_, _, _, rfl, hsteps, rfl, .failed hmem hQ' hfail⟩

end Run

/-! ### What a run leaves behind -/

/-- The blocks handed to the store of a window, in order. -/
def Journal.added (kind : WindowKind) (j : Journal) : List FilledBlock :=
  j.filterMap fun
    | .added k block => if k = kind then some block else none
    | _ => none

@[simp] theorem Journal.added_append (kind : WindowKind) (j j' : Journal) :
    Journal.added kind (j ++ j') = Journal.added kind j ++ Journal.added kind j' :=
  List.filterMap_append ..

theorem Scan.journal_storeBlock (s : Scan) (kind : WindowKind) (k : Nat) :
    ∃ acts, (s.storeBlock kind k).journal = s.journal ++ acts ∧
      Journal.added kind acts = (s.blockAt? k).toList := by
  unfold storeBlock
  split
  · rename_i hnone
    exact ⟨[], (List.append_nil _).symm, by simp [hnone, Journal.added]⟩
  · rename_i block hblock
    exact ⟨_, rfl, by simp [hblock, Journal.added]⟩

/-- The journal and the store tell what a run on a window has handed over. -/
structure Run.Records (w : Window) (r : Run) : Prop where
  journal : ∃ acts, r.scan.journal = w.journal ++ acts ∧ Journal.added w.kind acts = r.stored
  store : r.scan.store = r.stored.foldl BlockStore.add w.store

namespace Run

theorem Records.step {w : Window} {config : SyncConfig} {r r' : Run} (hr : Records w r)
    (h : Step (w.plan config) replies r r') : Records w r' := by
  obtain ⟨⟨acts, hacts, hadded⟩, hstore⟩ := hr
  cases h with
  | @store scan out t k log =>
      obtain ⟨new, hnew, hblock⟩ := scan.journal_storeBlock w.kind k
      refine ⟨⟨acts ++ new, ?_, ?_⟩, ?_⟩
      · rw [← List.append_assoc, ← hacts]
        exact hnew
      · rw [stored_concat, Journal.added_append, hadded, hblock]
        rfl
      · rw [stored_concat, List.foldl_append]
        refine (scan.store_storeBlock w.kind k).trans ?_
        rw [show scan.store = _ from hstore]
        rfl
  | answer _ _ | report _ _ | complete _ _ | settle =>
      constructor
      · rw [stored_concat, Move.stored?, Option.toList_none, List.append_nil]
        exact ⟨acts, hacts, hadded⟩
      · rw [stored_concat, Move.stored?, Option.toList_none, List.append_nil]
        exact hstore
  | done _ => exact ⟨⟨acts, hacts, hadded⟩, hstore⟩

theorem records_of_steps {w : Window} {config : SyncConfig} {first : Option String} {lo hi : Nat}
    {r : Run} (h : Steps (w.plan config) replies (start w config first lo hi) r) : Records w r :=
  h.keep (P := Records w) (fun hr hstep => hr.step hstep)
    ⟨⟨[], (List.append_nil _).symm, rfl⟩, rfl⟩

end Run

/-- Without heights, there is nothing to ask for. -/
theorem Window.bootstrap_eq_nil_of_lt (w : Window) (config : SyncConfig) (first : Option String)
    {lo hi : Nat} (hlt : hi < lo) : w.bootstrap config first lo hi = [] := by
  refine List.filter_eq_nil_iff.2 fun t ht => ?_
  obtain ⟨c, -, ht⟩ := List.mem_flatMap.1 ht
  obtain ⟨b, -, rfl⟩ := List.mem_map.1 ht
  simp [Task.isLive, hlt]

/-- Without heights, nothing is done. -/
theorem Window.synchronize_of_lt {σ : Type} (w : Window) (explorer : Explorer σ)
    (config : SyncConfig) (first : Option String) {lo hi : Nat} (hlt : hi < lo) (s : σ) :
    w.synchronize explorer config first lo hi s = (.ok (.idle lo hi), w, s) :=
  if_pos hlt

/-- When the first batches cannot be derived, nothing is asked. -/
theorem Window.synchronize_of_unfit {σ : Type} (w : Window) (explorer : Explorer σ)
    {config : SyncConfig} (hfits : w.fits config = false) (first : Option String) {lo hi : Nat}
    (hle : lo ≤ hi) (s : σ) :
    w.synchronize explorer config first lo hi s = (.error .overflow, w, s) := by
  rw [synchronize, if_neg (Nat.not_lt.2 hle), hfits]
  rfl

/-- What becomes of the store and the disk at the end: the store is flushed, unless an overflow is the
end. -/
def Window.save {α : Type} (disk : Disk) (store : BlockStore) : Except Stop α → BlockStore × Disk
  | .error .overflow => (store, disk)
  | .error (.failed _) | .ok _ => (store.flush disk).2

namespace Window

variable {α : Type} {disk : Disk} {store : BlockStore} {result : Except Stop α}

theorem save_of_ne (hreturns : result ≠ .error .overflow) :
    save disk store result = (store.flush disk).2 := by
  unfold save
  split
  · exact absurd rfl hreturns
  · rfl
  · rfl

variable (disk store result)

theorem save_cases : save disk store result = (store, disk) ∨
    save disk store result = (store.flush disk).2 := by
  unfold save
  split
  · exact .inl rfl
  · exact .inr rfl
  · exact .inr rfl

@[simp] theorem blocks_save : (save disk store result).1.blocks = store.blocks := by
  rcases save_cases disk store result with h | h <;> rw [h]
  exact store.blocks_flush disk

end Window

/-- What a synchronization leaves of a window, when its run ends with a scan. -/
structure Window.Leaves (w : Window) (result : Except Stop WindowStats) (scan : Scan) (w' : Window) :
    Prop where
  kind : w'.kind = w.kind
  chains : w'.chains = scan.chains
  saved : (w'.store, w'.disk) = Window.save w.disk scan.store result
  journal : ∃ tail, w'.journal = scan.journal ++ tail ∧ ∀ kind, Journal.added kind tail = []

namespace Window.Leaves

variable {w w' : Window} {result : Except Stop WindowStats} {scan : Scan}

theorem store_eq (h : w.Leaves result scan w') :
    w'.store = (save w.disk scan.store result).1 :=
  congrArg Prod.fst h.saved

theorem disk_eq (h : w.Leaves result scan w') :
    w'.disk = (save w.disk scan.store result).2 :=
  congrArg Prod.snd h.saved

end Window.Leaves

/-- The last acts of a synchronization: the flush, and what is told of a success. -/
def Window.closing (kind : WindowKind) : Except Stop WindowStats → Journal
  | .ok stats => [.flushed kind, .event (.windowCompleted kind stats.lo stats.hi stats.blocks)]
  | .error (.failed _) => [.flushed kind]
  | .error .overflow => []

/-- What a synchronization comes to when its tasks and the flush of its store have come to an end. -/
def Window.outcome (flushed : Except SyncError Unit) (stats : WindowStats) :
    Except Stop Unit → Except Stop WindowStats
  | .error stop => .error stop
  | .ok () => (flushed.mapError .failed).map fun _ => stats

/-- **A synchronization is a run.**  It ends where the run comes to its end; it succeeds if no task is
out there and the store is flushed. -/
theorem Run.ends_of_synchronize {σ : Type} {explorer : Explorer σ} {replies : Replies}
    {Q : List Answered → σ → Prop} (hkeeps : explorer.Keeps replies) (htells : explorer.Tells Q)
    {w w' : Window} {config : SyncConfig} {first : Option String} {lo hi : Nat} {s s' : σ}
    {result : Except Stop WindowStats} (hQ : Q [] s) (hle : lo ≤ hi)
    (h : w.synchronize explorer config first lo hi s = (result, w', s')) :
    ∃ r joined, Steps (w.plan config) replies (start w config first lo hi) r ∧ r.stage = .waiting ∧
      w.Leaves result r.scan w' ∧ w'.journal = r.scan.journal ++ Window.closing w.kind result ∧
      r.Ends explorer w config Q joined s' ∧
      result = Window.outcome (r.scan.store.flush w.disk).1 { r.scan.progress with lo, hi } joined := by
  cases hfits : w.fits config with
  | false =>
      rw [w.synchronize_of_unfit explorer hfits first hle s] at h
      cases h
      exact ⟨_, _, .refl _, rfl, ⟨rfl, rfl, rfl, [], (List.append_nil _).symm, fun _ => rfl⟩,
        (List.append_nil _).symm, .unfit hfits rfl hQ, rfl⟩
  | true =>
      obtain ⟨r, joined, s₁, hran, hsteps, hstage, hends⟩ :=
        steps_of_runAll hkeeps htells hfits first lo hi hQ
      refine ⟨r, joined, hsteps, hstage, ?_⟩
      simp only [Window.synchronize, Window.flush, if_neg (Nat.not_lt.2 hle), hfits, Bool.not_true,
        Bool.false_eq_true, if_false, hran] at h
      split at h
      · cases h
        exact ⟨⟨rfl, rfl, rfl, [], (List.append_nil _).symm, fun _ => rfl⟩,
          (List.append_nil _).symm, hends, rfl⟩
      · cases h
        exact ⟨⟨rfl, rfl, rfl, _, rfl, fun _ => rfl⟩, rfl, hends, rfl⟩
      · cases hflushed : (r.scan.store.flush w.disk).1 with
        | error e =>
            rw [hflushed] at h
            cases h
            exact ⟨⟨rfl, rfl, rfl, _, rfl, fun _ => rfl⟩, rfl, hends, rfl⟩
        | ok u =>
            rw [hflushed] at h
            cases h
            exact ⟨⟨rfl, rfl, rfl, _, List.append_assoc .., fun _ => rfl⟩, List.append_assoc .., hends,
              rfl⟩

/-- A synchronization ends in a state that its steps reach; if it succeeds, no task is out there, and
the store is flushed. -/
theorem Run.steps_of_synchronize {σ : Type} {explorer : Explorer σ} {replies : Replies}
    (hkeeps : explorer.Keeps replies) {w w' : Window} {config : SyncConfig} {first : Option String}
    {lo hi : Nat} {s s' : σ} {result : Except Stop WindowStats} (hle : lo ≤ hi)
    (h : w.synchronize explorer config first lo hi s = (result, w', s')) :
    ∃ r, Steps (w.plan config) replies (start w config first lo hi) r ∧ r.stage = .waiting ∧
      w.Leaves result r.scan w' ∧
      ∀ stats, result = .ok stats → r.out = [] ∧ (r.scan.store.flush w.disk).1 = .ok () := by
  obtain ⟨r, joined, hsteps, hstage, hleaves, -, hends, hresult⟩ :=
    ends_of_synchronize hkeeps explorer.tells_true trivial hle h
  refine ⟨r, hsteps, hstage, hleaves, fun stats hok => ?_⟩
  rw [hok] at hresult
  cases hends with
  | unfit _ _ _ => cases hresult
  | failed _ _ _ => cases hresult
  | done _ hout _ =>
      cases hflushed : (r.scan.store.flush w.disk).1 with
      | error e =>
          rw [hflushed] at hresult
          cases hresult
      | ok u => exact ⟨hout, rfl⟩

end WatchWallet
