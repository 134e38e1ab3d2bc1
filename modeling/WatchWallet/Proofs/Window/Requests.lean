import Mathlib.Algebra.Order.Floor.Div
import Mathlib.Data.List.Permutation
import WatchWallet.Explorer.Simulated
import WatchWallet.Proofs.Window.Completeness
import WatchWallet.Proofs.Window.Exchanges

/-!
# Window — Requests

How many requests a synchronization sends, whatever it is answered.  Every request is that of a
registered task (`Run.Concludes.exists_asked`).  A task has a budget: for each of its heights one
request, and one more for each gap batch that may still follow.  An answer takes one request out of
it, and what is left is enough for the tasks that follow: a continuation gives up a height, a next
gap task gives up a batch (`Task.budget_children_lt`).  So the budget of the first tasks of a chain
bounds the requests for the chain (`Run.Frugal`), and since the tasks that are out cost less with
every answer, every run ends (`Run.wellFounded_step`).
-/

namespace WatchWallet

/-! ### Requests of tasks -/

def Exchange.request (x : Exchange) : Request := .transactions x.addresses x.start

def Task.request (t : Task) : Request := .transactions t.batch.addresses t.start

namespace Run

variable {w : Window} {config : SyncConfig} {first : Option String} {lo hi : Nat} {p : Plan}
  {replies : Replies} {r r' : Run}

/-- What a step registers is out. -/
theorem mem_launched_of_step (h : Step p replies r r') {t : Task} (ht : t ∈ r'.launched) :
    t ∈ r.launched ∨ t ∈ r'.out := by
  cases h with
  | answer _ _ =>
      rw [launched_concat] at ht
      refine (List.mem_append.1 ht).imp_right fun hkid => ?_
      exact List.mem_append_left _ (List.mem_append_right _ hkid)
  | report _ _ | complete _ _ | store | settle =>
      rw [launched_concat, Move.launched, List.append_nil] at ht
      exact .inl ht
  | done _ => exact .inl ht

/-- Every registered task was out in some state of the run. -/
theorem exists_steps_of_mem_launched (h : Steps p replies (start w config first lo hi) r) {t : Task}
    (ht : t ∈ r.launched) :
    ∃ r₀, Steps p replies (start w config first lo hi) r₀ ∧ t ∈ r₀.out := by
  refine (h.keep (P := fun r => Steps p replies (start w config first lo hi) r ∧ ∀ t ∈ r.launched,
    ∃ r₀, Steps p replies (start w config first lo hi) r₀ ∧ t ∈ r₀.out) (fun {r r'} hr hstep => ?_)
    ⟨.refl _, fun t ht => ⟨_, .refl _, ?_⟩⟩).2 t ht
  · have hsteps := hr.1.trans (.one hstep)
    refine ⟨hsteps, fun t ht => ?_⟩
    rcases mem_launched_of_step hstep ht with hold | hout
    · exact hr.2 t hold
    · exact ⟨r', hsteps, hout⟩
  · rwa [launched_start] at ht

/-- Every registered task was answered, or it is out. -/
def Tracked (r : Run) : Prop :=
  r.launched.Perm (r.answered.map Answered.task ++ r.out)

theorem Tracked.step (hr : r.Tracked) (h : Step p replies r r') : r'.Tracked := by
  unfold Tracked at hr ⊢
  cases h with
  | @answer scan before after t log a f hreply hjudge =>
      rw [launched_concat, answered_concat]
      refine (hr.append_right (t.children p f)).trans ?_
      rw [List.perm_iff_count]
      intro c
      simp only [answered, Move.answered?, Option.toList_some, List.map_append, List.map_cons,
        List.map_nil, List.count_append, List.count_cons, List.count_nil]
      omega
  | report _ _ | complete _ _ | store | settle =>
      rw [launched_concat, answered_concat]
      simpa only [launched, answered, Move.launched, Move.answered?, Option.toList_none,
        List.append_nil] using hr
  | done _ => exact hr

theorem tracked_of_steps (h : Steps p replies (start w config first lo hi) r) : r.Tracked := by
  refine h.keep (P := Tracked) (fun hr hstep => hr.step hstep) ?_
  rw [Tracked, launched_start]
  exact .refl _

/-- The requests that were sent are those of registered tasks, one for each. -/
theorem Concludes.exists_asked {result : Except Stop WindowStats} {exchanges : List Exchange}
    (h : r.Concludes w config lo hi result exchanges) (hr : r.Tracked) :
    ∃ asked : List Task, asked.Subperm r.launched ∧
      exchanges.map Exchange.request = asked.map Task.request := by
  cases h with
  | unfit _ _ => exact ⟨[], List.nil_subperm, rfl⟩
  | joined _ _ =>
      refine ⟨r.answered.map Answered.task, ?_, ?_⟩
      · exact (List.sublist_append_left _ r.out).subperm.trans hr.symm.subperm
      · simp [Function.comp_def, Exchange.request, Answered.exchange, Task.request]
  | @failed t reply e hmem _ =>
      refine ⟨r.answered.map Answered.task ++ [t], ?_, ?_⟩
      · exact ((List.singleton_sublist.2 hmem).append_left _).subperm.trans hr.symm.subperm
      · simp [Function.comp_def, Exchange.request, Answered.exchange, Task.request]

end Run

/-! ### The budget of a task -/

namespace Task

variable {p : Plan} {t : Task}

/-- The number of gap batches of a chain after a batch. -/
def gapsAfter (p : Plan) (t : Task) : Nat := t.addressesAfter p ⌈/⌉ p.gap

/-- How many requests a task may lead to, itself included. -/
def budget (p : Plan) (t : Task) : Nat :=
  let heights := t.hi + 1 - t.lo
  match t.batch.kind with
  | .regular => heights
  | .gap => (t.gapsAfter p + 1) * heights

theorem budget_pos (hle : t.lo ≤ t.hi) : 0 < t.budget p := by
  have hheights : 0 < t.hi + 1 - t.lo := by omega
  unfold budget
  dsimp only
  split
  · exact hheights
  · exact Nat.mul_pos (Nat.succ_pos _) hheights

/-- A gap batch of a chain, and those after it. -/
theorem sub_ceilDiv_add_one {n gap : Nat} (hn : 0 < n) (hgap : 0 < gap) :
    (n - gap) ⌈/⌉ gap + 1 = n ⌈/⌉ gap := by
  rw [Nat.ceilDiv_eq_add_pred_div, Nat.ceilDiv_eq_add_pred_div, ← Nat.add_div_right _ hgap]
  rcases Nat.lt_or_ge n gap with hlt | hle
  · rw [Nat.sub_eq_zero_of_le (Nat.le_of_lt hlt)]
    rw [Nat.div_eq_of_lt_le (k := 1) (by omega) (by omega),
      Nat.div_eq_of_lt_le (k := 1) (by omega) (by omega)]
  · congr 1
    omega

/-- A gap batch and those after it take up the addresses from its first one on. -/
theorem gapsAfter_add_one (hgap : 0 < p.gap) {first : Nat}
    (hbatch : t.batch = .derive (p.addresses t.chain) first p.gap .gap) (hlive : t.isLive) :
    t.gapsAfter p + 1 = ((p.addresses t.chain).length - first) ⌈/⌉ p.gap := by
  have hne := (isLive_iff.1 hlive).1
  rw [hbatch] at hne
  have hfirst := (Batch.lt_length_of_derive_ne_nil hne).1
  have hafter : t.addressesAfter p = (p.addresses t.chain).length - first - p.gap := by
    simp only [addressesAfter, hbatch, Batch.derive]
    omega
  rw [gapsAfter, hafter]
  exact sub_ceilDiv_add_one (Nat.sub_pos_of_lt hfirst) hgap

theorem budget_nextGap_le (hgap : 0 < p.gap) {low : Block} (hlow : t.lo ≤ low.height.toNat)
    (hlive : (t.nextGap p low).isLive) :
    (t.nextGap p low).budget p ≤ t.gapsAfter p * (t.hi + 1 - t.lo) := by
  have hbudget : (t.nextGap p low).budget p =
      ((t.nextGap p low).gapsAfter p + 1) * (t.hi + 1 - low.height.toNat) := rfl
  have hnext : (t.nextGap p low).gapsAfter p + 1 = t.gapsAfter p :=
    gapsAfter_add_one hgap rfl hlive
  rw [hbudget, hnext]
  exact Nat.mul_le_mul_left _ (by omega)

/-- The tasks that follow from an answer have one request less together than the task it answers. -/
theorem budget_children_lt (hgap : 0 < p.gap) {a : Answer} {f : Finding}
    (hjudge : t.judge a = .ok f) (hle : t.lo ≤ t.hi) :
    Schedule.costOf (budget p) (t.children p f) < t.budget p := by
  cases f with
  | quiet => exact budget_pos hle
  | active low high lastFull =>
      obtain ⟨hlow, hfull⟩ := le_of_judge hjudge
      have hrest : Schedule.costOf (budget p)
          ((if lastFull < t.hi then [t.continuation high lastFull] else []).filter isLive) ≤
          t.hi - t.lo := by
        refine Nat.le_trans (Schedule.costOf_filter_le ..) ?_
        split
        · have hbudget : (t.continuation high lastFull).budget p = t.hi + 1 - (lastFull + 1) := rfl
          simp only [Schedule.costOf]
          omega
        · exact Nat.zero_le _
      simp only [children, List.filter_append, Schedule.costOf_append]
      cases hkind : t.batch.kind with
      | regular =>
          simp only [Batch.isGap, hkind, budget, reduceCtorEq, decide_false, Bool.false_eq_true,
            if_false, List.filter_nil, Schedule.costOf]
          omega
      | gap =>
          simp only [Batch.isGap, hkind, decide_true, if_true]
          -- the next gap batch takes up the gaps left, and the rest of this one the heights left
          have hnext : Schedule.costOf (budget p) ([t.nextGap p low].filter isLive) ≤
              t.gapsAfter p * (t.hi + 1 - t.lo) := by
            by_cases hlive : (t.nextGap p low).isLive
            · rw [List.filter_cons_of_pos hlive]
              exact budget_nextGap_le hgap hlow hlive
            · rw [List.filter_cons_of_neg hlive]
              exact Nat.zero_le _
          have hbudget : t.budget p =
              t.gapsAfter p * (t.hi + 1 - t.lo) + (t.hi + 1 - t.lo) := by
            simp only [budget, hkind, Nat.succ_mul]
          omega

/-- What follows from an answer is about the chain of the answered task. -/
theorem chain_of_mem_children {c : Task} {f : Finding} (hc : c ∈ t.children p f) :
    c.chain = t.chain := by
  cases f with
  | quiet => cases hc
  | active low high lastFull =>
      obtain ⟨⟨-, rfl⟩ | ⟨-, rfl⟩, -⟩ := mem_children_active.1 hc <;> rfl

end Task

/-! ### The budget of a chain -/

/-- How many requests a window takes for a chain at most: for each height one for each batch of used
addresses and each gap batch. -/
def Window.budget (w : Window) (config : SyncConfig) (lo hi : Nat) (c : Chain) : Nat :=
  ((w.chains.get c).used ⌈/⌉ config.batchSize.toNat +
    ((w.chains.get c).size - (w.chains.get c).used) ⌈/⌉ config.gapSize.toNat) * (hi + 1 - lo)

namespace Run

variable {w : Window} {config : SyncConfig} {first : Option String} {lo hi n : Nat} {p : Plan}
  {replies : Replies} {r r' : Run} {c : Chain}

/-- The requests that were answered for a chain, and those that the tasks that are out for it may
lead to, are `n` at most. -/
def Frugal (p : Plan) (c : Chain) (n : Nat) (r : Run) : Prop :=
  r.answered.countP (·.task.chain = c) +
    Schedule.costOf (Task.budget p) (r.out.filter (·.chain = c)) ≤ n

theorem Frugal.step (hgap : 0 < p.gap) (hr : Frugal p c n r) (hs : Sound lo hi r)
    (h : Step p replies r r') : Frugal p c n r' := by
  unfold Frugal at hr ⊢
  cases h.effect with
  | @answer before after t a f hreply hjudge hout hout' _ _ _ hanswered =>
      obtain ⟨-, hle, -⟩ := hs.out_within t (hout ▸ List.mem_append_right _ List.mem_cons_self)
      have hspent := Task.budget_children_lt hgap hjudge hle
      rw [hout] at hr
      rw [hout', hanswered]
      by_cases hc : t.chain = c
      · have hkids : (t.children p f).filter (·.chain = c) = t.children p f :=
          List.filter_eq_self.2 fun k hk => decide_eq_true ((Task.chain_of_mem_children hk).trans hc)
        simp only [List.filter_append, List.filter_cons, hc, decide_true, if_true, hkids,
          Schedule.costOf_append, Schedule.costOf, List.countP_append, List.countP_singleton] at hr ⊢
        omega
      · have hkids : (t.children p f).filter (·.chain = c) = [] :=
          List.filter_eq_nil_iff.2 fun k hk => by simp [Task.chain_of_mem_children hk, hc]
        simp only [List.filter_append, List.filter_cons, hc, decide_false, Bool.false_eq_true,
          if_false, hkids, Schedule.costOf_append, Schedule.costOf, List.countP_append,
          List.countP_singleton] at hr ⊢
        omega
  | store hout _ _ _ hanswered | none hout _ _ _ hanswered => rwa [hout, hanswered]

/-- The first tasks of a chain, of its regular batches and its first gap batch. -/
theorem filter_bootstrap (w : Window) (config : SyncConfig) (first : Option String) (lo hi : Nat)
    (c : Chain) : (w.bootstrap config first lo hi).filter (·.chain = c) =
      ((Batch.bootstrap (w.chains.get c) config.batchSize.toNat config.gapSize.toNat).map
        (⟨c, ·, first, lo, hi⟩)).filter Task.isLive := by
  cases c <;> simp [Window.bootstrap, List.filter_map, Function.comp_def]

/-- The first tasks of a chain keep to its budget. -/
theorem budget_bootstrap_le (hvalid : config.Valid) (c : Chain) :
    Schedule.costOf (Task.budget (w.plan config))
      ((w.bootstrap config first lo hi).filter (·.chain = c)) ≤ w.budget config lo hi c := by
  let k := w.chains.get c
  let task : Batch → Task := (⟨c, ·, first, lo, hi⟩)
  have hregulars : Schedule.costOf (Task.budget (w.plan config))
      ((Batch.regulars k.addresses config.batchSize.toNat k.used).map task) =
        k.used ⌈/⌉ config.batchSize.toNat * (hi + 1 - lo) := by
    rw [Schedule.costOf_eq_of_forall (k := hi + 1 - lo), List.length_map, Batch.regulars,
      List.length_map, List.length_range]
    · rfl
    · simp [Batch.regulars, task, Task.budget, Batch.derive]
  have hgap : Schedule.costOf (Task.budget (w.plan config)) ([task (Batch.derive k.addresses k.used
      config.gapSize.toNat .gap)].filter Task.isLive) ≤
        (k.size - k.used) ⌈/⌉ config.gapSize.toNat * (hi + 1 - lo) := by
    by_cases hlive : (task (Batch.derive k.addresses k.used config.gapSize.toNat .gap)).isLive
    · rw [List.filter_cons_of_pos hlive]
      refine Nat.le_of_eq (congrArg (· * (hi + 1 - lo)) ?_)
      exact Task.gapsAfter_add_one (p := w.plan config) hvalid.gapSize_pos rfl hlive
    · rw [List.filter_cons_of_neg hlive]
      exact Nat.zero_le _
  rw [filter_bootstrap, Batch.bootstrap, List.map_append, List.filter_append,
    Schedule.costOf_append, Window.budget, Nat.add_mul]
  exact Nat.add_le_add (Nat.le_trans (Schedule.costOf_filter_le ..) (Nat.le_of_eq hregulars)) hgap

theorem frugal_of_steps (hvalid : config.Valid) (c : Chain)
    (h : Steps (w.plan config) replies (start w config first lo hi) r) :
    Frugal (w.plan config) c (w.budget config lo hi c) r := by
  have hinv := h.keep (P := fun r => Sound lo hi r ∧
      Frugal (w.plan config) c (w.budget config lo hi c) r)
    (fun hr hstep => ⟨hr.1.step hstep, hr.2.step hvalid.gapSize_pos hr.1 hstep⟩)
    ⟨sound_start w config first lo hi, ?_⟩
  · exact hinv.2
  · exact Nat.le_trans (Nat.le_of_eq (Nat.zero_add _)) (budget_bootstrap_le hvalid c)

/-- What is registered for a chain keeps to its budget. -/
theorem countP_launched_le (hs : Sound lo hi r) (hr : r.Tracked) (hf : Frugal p c n r) :
    r.launched.countP (·.chain = c) ≤ n := by
  have hout : (r.out.filter (·.chain = c)).length ≤
      Schedule.costOf (Task.budget p) (r.out.filter (·.chain = c)) :=
    Schedule.length_le_costOf fun t ht =>
      Task.budget_pos (hs.out_within t (List.mem_filter.1 ht).1).2.1
  unfold Frugal at hf
  rw [hr.countP_eq, List.countP_append, List.countP_map, List.countP_eq_length_filter (l := r.out)]
  exact Nat.le_trans (Nat.add_le_add_left hout _) hf

/-! ### Every run ends -/

end Run

/-- How many steps a run takes before its next answer, at most. -/
def Stage.stepsLeft : Stage → Nat
  | waiting => 0
  | reporting t next => 3 * (t.hi + 1 - next) + 1
  | storing t k => 3 * (t.hi - k) + 3
  | settling t k => 3 * (t.hi - k) + 2

namespace Run

/-- The cost of the tasks that are out, then the steps before the next answer. -/
def rank (p : Plan) (r : Run) : Nat × Nat :=
  (Schedule.costOf (Task.cost p) r.out, r.stage.stepsLeft)

theorem Step.rank_lt (h : Step p replies r r') :
    Prod.Lex (· < ·) (· < ·) (r'.rank p) (r.rank p) := by
  cases h with
  | answer _ hjudge =>
      refine .left _ _ ?_
      have hlt := Task.cost_children_lt (p := p) hjudge
      simp only [Schedule.costOf_append, Schedule.costOf]
      omega
  | report hle _ | complete hle _ | store | settle | done hlt =>
      refine .right _ ?_
      simp only [Stage.stepsLeft]
      omega

/-- **Every run ends**, whatever is answered. -/
theorem wellFounded_step (p : Plan) (replies : Replies) :
    WellFounded fun r' r => Step p replies r r' :=
  Subrelation.wf Step.rank_lt (InvImage.wf (rank p) (Nat.lt_wfRel.wf.prod_lex Nat.lt_wfRel.wf))

end Run

namespace Window

variable {w w' : Window} {config : SyncConfig}

/-- **A window takes finitely many requests**, whatever the explorer answers from call to call.  Every
run ends.  Whatever a run registers asks for heights of the window, up to its end, and a chain gets no
more than its budget; and the requests of a synchronization, whether it succeeds or fails, are those
of tasks that were registered, one for each. -/
theorem requests_bounded (first : Option String) (lo hi : Nat) (hvalid : config.validate = .ok ()) :
    (∀ replies, WellFounded fun r' r => Run.Step (w.plan config) replies r r') ∧
    (∀ {replies r}, Run.Steps (w.plan config) replies (Run.start w config first lo hi) r →
      (∀ t ∈ r.launched, lo ≤ t.lo ∧ t.lo ≤ t.hi ∧ t.hi = hi) ∧
      ∀ c, r.launched.countP (·.chain = c) ≤ w.budget config lo hi c) ∧
    ∀ {σ} {explorer : Explorer σ} {result w' s s'},
      w.synchronize explorer config first lo hi s = (result, w', s') →
      ∃ exchanges r, ∃ asked : List Task, w.synchronize explorer.recorded config first lo hi (s, []) =
          (result, w', s', exchanges) ∧
        Run.Steps (w.plan config) (fun _ _ _ => True) (Run.start w config first lo hi) r ∧
        asked.Subperm r.launched ∧ exchanges.map Exchange.request = asked.map Task.request ∧
        ∀ c, asked.countP (·.chain = c) ≤ w.budget config lo hi c := by
  have hvalid := SyncConfig.validate_eq_ok_iff.1 hvalid
  have hcount : ∀ {replies r},
      Run.Steps (w.plan config) replies (Run.start w config first lo hi) r →
      ∀ c, r.launched.countP (·.chain = c) ≤ w.budget config lo hi c := fun hsteps c =>
    Run.countP_launched_le ((Run.sound_start w config first lo hi).steps hsteps)
      (Run.tracked_of_steps hsteps) (Run.frugal_of_steps hvalid c hsteps)
  refine ⟨Run.wellFounded_step _, fun hsteps => ⟨fun t ht => ?_, hcount hsteps⟩,
    fun {σ explorer result w' s s'} h => ?_⟩
  · obtain ⟨r₀, hsteps₀, hout⟩ := Run.exists_steps_of_mem_launched hsteps ht
    exact ((Run.sound_start w config first lo hi).steps hsteps₀).out_within t hout
  rcases Nat.lt_or_ge hi lo with hlt | hle
  · rw [synchronize_of_lt w explorer config first hlt] at h
    cases h
    exact ⟨[], _, [], w.synchronize_of_lt explorer.recorded config first hlt (s, []), .refl _,
      List.nil_subperm, rfl, fun _ => Nat.zero_le _⟩
  have hkeeps : explorer.Keeps fun _ _ _ => True := fun _ => trivial
  obtain ⟨exchanges, hrecorded, r, hsteps, -, -, hconcludes⟩ :=
    Run.exchanges_of_synchronize hkeeps hle h
  obtain ⟨asked, hasked, hrequests⟩ := hconcludes.exists_asked (Run.tracked_of_steps hsteps)
  exact ⟨exchanges, r, asked, hrecorded, hsteps, hasked, hrequests,
    fun c => Nat.le_trans (hasked.countP_le _) (hcount hsteps c)⟩

/-- Asked from below the second block, this explorer shows a payment in each of the first two blocks,
and says that there are more. -/
def insistentExplorer : Explorer Unit :=
  { threeBlocks.explorer 2 with
    transactions _ start s :=
      if start = some "b" then (.ok ⟨[], false⟩, s)
      else (.ok ⟨[⟨"g", 0, .epoch⟩, ⟨"b", 1, .epoch⟩].map fun header =>
        { block := some header }, true⟩, s) }

/-- Both addresses are asked for at both heights: the budget is used up. -/
theorem requests_bounded_insistent :
    let config : SyncConfig := ⟨0, 1, 1, 2, "g"⟩
    ∃ result w' exchanges, ∃ asked : List Task, twoAddresses.synchronize
        insistentExplorer.recorded config none 0 1 ((), []) = (result, w', (), exchanges) ∧
      exchanges.map Exchange.request =
        [.transactions ["a"] none, .transactions ["z"] (some "g"), .transactions ["z"] (some "b"),
          .transactions ["a"] (some "b")] ∧
      exchanges.map Exchange.request = asked.map Task.request ∧
      (∀ c, asked.countP (·.chain = c) ≤ twoAddresses.budget config 0 1 c) ∧
      twoAddresses.budget config 0 1 .receive = 4 := by
  intro config
  have hrequests : (twoAddresses.synchronize insistentExplorer.recorded config none 0 1
      ((), [])).2.2.2.map Exchange.request =
        [.transactions ["a"] none, .transactions ["z"] (some "g"), .transactions ["z"] (some "b"),
          .transactions ["a"] (some "b")] := by decide +kernel
  have hvalid : config.validate = .ok () := rfl
  have hrun : twoAddresses.synchronize insistentExplorer config none 0 1 () = (_, _, ()) := rfl
  obtain ⟨exchanges, -, asked, hrecorded, -, -, hasked, hcount⟩ :=
    (requests_bounded none 0 1 hvalid).2.2 hrun
  rw [hrecorded] at hrequests
  exact ⟨_, _, exchanges, asked, hrecorded, hrequests, hasked, hcount, by decide +kernel⟩

end Window
end WatchWallet
