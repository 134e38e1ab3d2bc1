import Mathlib.Data.Nat.Find
import WatchWallet.Proofs.Window.Counts
import WatchWallet.Proofs.Window.Exchanges

/-!
# Window — Finalization

In which order the heights of a window are finished, whatever the explorer answers and in whatever
order its answers come (`Run.FinishesInOrder`): the complete heights are the first ones of the
window; blocks are handed over in ascending order, no height twice; and when a height is complete,
every task that was registered on it has reported, and no task registers on it any more.  This holds in
every state of a run, and a synchronization is such a run (`finalization_in_order`).
-/

namespace WatchWallet

/-- The height, if any, whose block is about to be handed over lies above another height. -/
def Stage.Above (h : Nat) : Stage → Prop
  | storing _ k => h < k
  | waiting | reporting _ _ | settling _ _ => True

/-- The height, if any, that a report has completed just now. -/
def Stage.completed? : Stage → Option Nat
  | storing _ k | settling _ k => some k
  | waiting | reporting _ _ => none

namespace Run

variable {lo hi : Nat} {r r' : Run} {p : Plan} {replies : Replies}

/-! ### Complete heights stay as they are -/

/-- A complete height stays complete. -/
theorem isComplete_step (h : Step p replies r r') {k : Nat}
    (hc : r.scan.tracker.isComplete k = true) : r'.scan.tracker.isComplete k = true :=
  h.isComplete_iff.2 (.inl hc)

/-- No task registers on a complete height. -/
theorem Sound.filter_launched_step (hs : Sound lo hi r) (h : Step p replies r r') {k : Nat}
    (hc : r.scan.tracker.isComplete k = true) :
    r'.launched.filter (Task.covers k) = r.launched.filter (Task.covers k) := by
  cases h with
  | answer _ hjudge =>
      rw [launched_concat, List.filter_append, Move.launched, hs.filter_children_eq_nil hjudge hc,
        List.append_nil]
      rfl
  | report _ _ | complete _ _ | store | settle =>
      rw [launched_concat, Move.launched, List.append_nil]
      rfl
  | done _ => rfl

theorem Sound.filter_launched_steps (hs : Sound lo hi r) (h : Steps p replies r r') {k : Nat}
    (hc : r.scan.tracker.isComplete k = true) :
    r'.launched.filter (Task.covers k) = r.launched.filter (Task.covers k) := by
  induction h with
  | refl => rfl
  | more h _ ih => rw [ih (hs.step h) (isComplete_step h hc), hs.filter_launched_step h hc]

/-- What holds below each height of the window at which it holds, holds up to some height. -/
theorem exists_stop {P : Nat → Prop} (hle : lo ≤ hi + 1)
    (hdown : ∀ {x y}, lo ≤ y → y ≤ x → x ≤ hi → P x → P y) :
    ∃ stop, lo ≤ stop ∧ stop ≤ hi + 1 ∧ ∀ x, lo ≤ x → x ≤ hi → (P x ↔ x < stop) := by
  classical
  have hex : ∃ n, ¬ (lo + n ≤ hi ∧ P (lo + n)) := ⟨hi + 1 - lo, by omega⟩
  have hfirst := Nat.find_spec hex
  have hbelow : ∀ n < Nat.find hex, lo + n ≤ hi ∧ P (lo + n) := fun n hn =>
    not_not.1 (Nat.find_min hex hn)
  refine ⟨lo + Nat.find hex, Nat.le_add_right .., ?_, fun x hlo hhi => ⟨fun hx => ?_, fun hlt => ?_⟩⟩
  · by_contra hgt
    have := (hbelow (hi + 1 - lo) (by omega)).1
    omega
  · by_contra hge
    exact hfirst ⟨by omega, hdown (Nat.le_add_right ..) (Nat.not_lt.1 hge) hhi hx⟩
  · have := (hbelow (x - lo) (by omega)).2
    rwa [Nat.add_sub_cancel' hlo] at this

/-- The complete heights are the first ones of the window. -/
theorem Sound.exists_complete_iff (hs : Sound lo hi r) :
    ∃ n, n ≤ hi + 1 - lo ∧
      ∀ h, r.scan.tracker.isComplete h = true ↔ lo ≤ h ∧ h < lo + n := by
  by_cases hle : lo ≤ hi + 1
  · obtain ⟨stop, hlo, hhi, hstop⟩ := exists_stop hle
      fun hlo hle _ hc => hs.isComplete_of_le hc hlo hle
    refine ⟨stop - lo, by omega, fun h => ⟨fun hc => ?_, fun ⟨hlow, hlt⟩ => ?_⟩⟩
    · obtain ⟨hlow, hhigh⟩ := hs.le_of_isComplete hc
      have := (hstop h hlow hhigh).1 hc
      omega
    · exact (hstop h hlow (by omega)).2 (by omega)
  · refine ⟨0, Nat.zero_le _, fun h => ⟨fun hc => ?_, fun ⟨hlow, hlt⟩ => by omega⟩⟩
    obtain ⟨hlow, hhigh⟩ := hs.le_of_isComplete hc
    omega

/-! ### The order of the blocks -/

/-- The blocks handed over so far are in ascending order, and their heights are complete. -/
structure InOrder (r : Run) : Prop where
  completed : ∀ h ∈ r.stage.completed?, r.scan.tracker.isComplete h = true
  ascending : (r.stored.map FilledBlock.height).Pairwise (· < ·)
  isComplete : ∀ b ∈ r.stored, r.scan.tracker.isComplete b.height = true ∧
    r.stage.Above b.height

theorem InOrder.start (w : Window) (config : SyncConfig) (first : Option String) (lo hi : Nat) :
    InOrder (Run.start w config first lo hi) :=
  ⟨by simp [Run.start, Stage.completed?], by simp, by simp⟩

/-- The block of a height is made of what waits in its bucket, under the header of the first. -/
theorem Sound.blockAt?_cases (hs : Sound lo hi r) (k : Nat) :
    r.scan.buckets.get k = [] ∧ r.scan.blockAt? k = none ∨
      ∃ block, r.scan.blockAt? k = some block ∧ block.height = k ∧
        block.transactions = r.scan.buckets.get k ∧
        ∃ tx ∈ block.transactions, tx.block = some block.header := by
  unfold Scan.blockAt?
  cases hb : r.scan.buckets.get k with
  | nil => exact .inl ⟨rfl, rfl⟩
  | cons tx txs =>
      have hheight := hs.buckets k tx (hb ▸ List.mem_cons_self)
      cases hheader : tx.block with
      | none => simp [Transaction.height?, hheader] at hheight
      | some header =>
          rw [Transaction.height?, hheader] at hheight
          refine .inr ⟨⟨header, tx :: txs⟩, ?_, Option.some.inj hheight, rfl, tx,
            List.mem_cons_self, hheader⟩
          simp [hheader]

theorem Sound.of_blockAt? (hs : Sound lo hi r) {k : Nat} {block : FilledBlock}
    (h : r.scan.blockAt? k = some block) : block.height = k ∧
      block.transactions = r.scan.buckets.get k ∧
      ∃ tx ∈ block.transactions, tx.block = some block.header := by
  rcases hs.blockAt?_cases k with ⟨-, hnone⟩ | ⟨block', hblock, hof⟩
  · cases h.symm.trans hnone
  · rwa [Option.some.inj (h.symm.trans hblock)]

theorem InOrder.store {scan : Scan} {out : List Task} {t : Task} {k : Nat} {log : List Move}
    (ho : InOrder ⟨scan, out, .storing t k, log⟩) (hs : Sound lo hi ⟨scan, out, .storing t k, log⟩) :
    InOrder ⟨scan.storeBlock p.kind k, out, .settling t k,
      log ++ [.store k (scan.blockAt? k)]⟩ := by
  have hk : scan.tracker.isComplete k = true := ho.completed k rfl
  have hnew : ∀ b ∈ (scan.blockAt? k).toList, b.height = k := fun b hb =>
    (hs.of_blockAt? (Option.mem_toList.1 hb)).1
  refine ⟨fun h hh => ?_, ?_, fun b hb => ?_⟩
  · obtain rfl : k = h := Option.some.inj hh
    rwa [Scan.tracker_storeBlock]
  · rw [stored_concat, List.map_append, List.pairwise_append]
    refine ⟨ho.ascending, ?_, fun x hx y hy => ?_⟩
    · cases hb : scan.blockAt? k <;> simp [Move.stored?]
    · obtain ⟨b, hb, rfl⟩ := List.mem_map.1 hx
      obtain ⟨b', hb', rfl⟩ := List.mem_map.1 hy
      rw [hnew b' hb']
      exact (ho.isComplete b hb).2
  · rw [stored_concat, List.mem_append] at hb
    rw [Scan.tracker_storeBlock]
    rcases hb with hb | hb
    · exact ⟨(ho.isComplete b hb).1, trivial⟩
    · exact ⟨by rwa [hnew b hb], trivial⟩

theorem InOrder.step (ho : InOrder r) (hs : Sound lo hi r) (h : Step p replies r r') :
    InOrder r' := by
  have hkeep := fun k => isComplete_step h (k := k)
  have hdone : ∀ {t k}, r.stage = .reporting t k → r'.stage = .storing t k →
      r'.scan.tracker.isComplete k = true :=
    fun hbefore hafter => h.isComplete_iff.2 (.inr ⟨_, hbefore, hafter⟩)
  cases h with
  | answer _ _ | report _ _ | settle =>
      refine ⟨fun _ hh => absurd hh (Option.not_mem_none _), ?_, ?_⟩ <;>
        rw [stored_concat, Move.stored?, Option.toList_none, List.append_nil]
      · exact ho.ascending
      · exact fun b hb => ⟨hkeep _ (ho.isComplete b hb).1, trivial⟩
  | @complete scan out t k log hle _ =>
      have hmem : t ∈ unreported ⟨scan, out, .reporting t k, log⟩ k :=
        List.mem_append_right _ (by simp [Stage.unreported, hle])
      refine ⟨fun h hh => ?_, ?_, ?_⟩
      · obtain rfl : k = h := Option.some.inj hh
        exact hdone rfl rfl
      · rw [stored_concat, Move.stored?, Option.toList_none, List.append_nil]
        exact ho.ascending
      · rw [stored_concat, Move.stored?, Option.toList_none, List.append_nil]
        refine fun b hb => ⟨hkeep _ (ho.isComplete b hb).1, ?_⟩
        -- a complete height at or above `k` would make `k` complete before its last report
        show b.height < k
        by_contra hge
        have hc := hs.isComplete_of_le (ho.isComplete b hb).1 (Nat.le_trans hs.stage_within.1
          hs.stage_within.2.1) (Nat.not_lt.1 hge)
        rw [hs.not_isComplete_of_mem hmem] at hc
        cases hc
  | store => exact ho.store hs
  | done _ =>
      exact ⟨fun _ hh => absurd hh (Option.not_mem_none _), ho.ascending,
        fun b hb => ⟨(ho.isComplete b hb).1, trivial⟩⟩

/-- Every state of a run is sound and has its blocks in order. -/
theorem inOrder_of_steps {w : Window} {config : SyncConfig} {first : Option String}
    (h : Steps (w.plan config) replies (start w config first lo hi) r) :
    Sound lo hi r ∧ InOrder r :=
  h.keep (P := fun r => Sound lo hi r ∧ InOrder r)
    (fun hr hstep => ⟨hr.1.step hstep, hr.2.step hr.1 hstep⟩)
    ⟨sound_start w config first lo hi, .start w config first lo hi⟩

/-- A run on a window has finished its heights in order. -/
structure FinishesInOrder (w : Window) (config : SyncConfig) (replies : Replies) (lo hi : Nat)
    (r : Run) : Prop where
  /-- The complete heights are the first ones of the window. -/
  complete : ∃ n, n ≤ hi + 1 - lo ∧
    ∀ k, r.scan.tracker.isComplete k = true ↔ lo ≤ k ∧ k < lo + n
  /-- The blocks handed over so far lie in the window, in strictly ascending order. -/
  added : ∃ acts, r.scan.journal = w.journal ++ acts ∧
    ((Journal.added w.kind acts).map FilledBlock.height).Pairwise (· < ·) ∧
    ∀ b ∈ Journal.added w.kind acts, lo ≤ b.height ∧ b.height ≤ hi
  /-- On a complete height every task that was ever registered has reported, and none registers
  later. -/
  registered : ∀ k, r.scan.tracker.isComplete k = true →
    (r.launched.filter (Task.covers k)).Perm (r.reportsOn k) ∧
    ∀ r', Steps (w.plan config) replies r r' →
      r'.launched.filter (Task.covers k) = r.launched.filter (Task.covers k)

theorem finishesInOrder_of_steps {w : Window} {config : SyncConfig} {first : Option String}
    (h : Steps (w.plan config) replies (start w config first lo hi) r) :
    r.FinishesInOrder w config replies lo hi := by
  obtain ⟨hs, ho⟩ := inOrder_of_steps h
  obtain ⟨acts, hjournal, hadded⟩ := (records_of_steps h).journal
  refine ⟨hs.exists_complete_iff, ⟨acts, hjournal, ?_, fun b hb => ?_⟩, fun k hk => ⟨?_, ?_⟩⟩
  · rw [hadded]
    exact ho.ascending
  · rw [hadded] at hb
    exact hs.le_of_isComplete (ho.isComplete b hb).1
  · have hledger := hs.ledger k
    rwa [(hs.unreported_of_isComplete hk).1, List.append_nil] at hledger
  · exact fun r' hsteps => hs.filter_launched_steps hsteps hk

/-- **Heights are finished in order.**  So it is in every state that a run of a window reaches, for
whatever answers and in whatever order.  A synchronization takes the steps of such a run, whatever its
explorer answers and however it ends: what it asks and what it hears is what the run asked and heard,
and it leaves the window as the run does. -/
theorem finalization_in_order (w : Window) (config : SyncConfig) (first : Option String) (lo hi : Nat) :
    (∀ {replies r}, Steps (w.plan config) replies (start w config first lo hi) r →
      r.FinishesInOrder w config replies lo hi) ∧
    ∀ {σ} {explorer : Explorer σ} {replies}, explorer.Keeps replies → ∀ {result w' s s'},
      w.synchronize explorer config first lo hi s = (result, w', s') →
      hi < lo ∧ w' = w ∨
      ∃ exchanges r, w.synchronize explorer.recorded config first lo hi (s, []) =
          (result, w', s', exchanges) ∧
        Steps (w.plan config) replies (start w config first lo hi) r ∧
        r.Concludes w config lo hi result exchanges ∧ w.Leaves result r.scan w' ∧
        r.FinishesInOrder w config replies lo hi := by
  refine ⟨finishesInOrder_of_steps, fun {σ explorer replies} hkeeps {result w' s s'} h => ?_⟩
  rcases Nat.lt_or_ge hi lo with hlt | hle
  · rw [w.synchronize_of_lt explorer config first hlt] at h
    cases h
    exact .inl ⟨hlt, rfl⟩
  · obtain ⟨exchanges, hrecorded, r, hsteps, -, hleaves, hconcludes⟩ :=
      exchanges_of_synchronize hkeeps hle h
    exact .inr ⟨exchanges, r, hrecorded, hsteps, hconcludes, hleaves, finishesInOrder_of_steps hsteps⟩

/-- One receiving address, and nothing is stored. -/
def oneAddress : Window :=
  ⟨.stable, ⟨.ofList ["a"] 0, .ofList [] 0⟩, .memory .empty, .empty, []⟩

/-- A payment to it in block 0. -/
def onePayment : Transaction :=
  { hash := "t", block := some ⟨"g", 0, .epoch⟩, outputs := [{ address := some "a" }] }

/-- An explorer that knows of nothing else. -/
def onePaymentExplorer : Explorer Unit where
  delay s := (0, s)
  transactions _ _ s := (.ok ⟨[onePayment], false⟩, s)
  tip s := (.ok ⟨"h", 1, .epoch⟩, s)
  block _ s := (.ok none, s)
  pending _ s := (.ok [], s)

/-- The payment is handed over before anything is known of the height above it; and a synchronization
takes such steps, until both heights are finished. -/
theorem finalization_in_order_payment :
    let config : SyncConfig := ⟨0, 1, 1, 1, "g"⟩
    let replies : Replies := fun _ _ _ => True
    (∃ r, Steps (oneAddress.plan config) replies (start oneAddress config none 0 1) r ∧
      r.scan.tracker.isComplete 0 = true ∧ r.scan.tracker.isComplete 1 = false ∧
      r.FinishesInOrder oneAddress config replies 0 1 ∧
      Journal.added .stable r.scan.journal = [⟨⟨"g", 0, .epoch⟩, [onePayment]⟩]) ∧
    ∃ stats w' exchanges, ∃ r : Run, oneAddress.synchronize onePaymentExplorer.recorded config none 0 1
        ((), []) = (.ok stats, w', (), exchanges) ∧
      r.Concludes oneAddress config 0 1 (.ok stats) exchanges ∧
      oneAddress.Leaves (.ok stats) r.scan w' ∧ r.FinishesInOrder oneAddress config replies 0 1 ∧
      Journal.added .stable w'.journal = [⟨⟨"g", 0, .epoch⟩, [onePayment]⟩] := by
  intro config replies
  refine ⟨?_, ?_⟩
  · let t : Task := ⟨.receive, ⟨["a"], 0, .gap⟩, none, 0, 1⟩
    have hfirst : oneAddress.bootstrap config none 0 1 = [] ++ t :: [] := by decide +kernel
    have hanswer : Step (oneAddress.plan config) replies
        ⟨(oneAddress.scan 0 1).launch ([] ++ t :: []), [] ++ t :: [], .waiting,
          [.launch ([] ++ t :: [])]⟩ _ :=
      .answer (a := ⟨[onePayment], false⟩) trivial rfl rfl
    have hsteps := Steps.more hanswer (.more (.complete (by decide) rfl) (.one .store))
    rw [← hfirst] at hsteps
    have hinOrder := (finalization_in_order oneAddress config none 0 1).1 hsteps
    exact ⟨_, hsteps, by decide +kernel, by decide +kernel, hinOrder, by decide +kernel⟩
  · have hok : (oneAddress.synchronize onePaymentExplorer config none 0 1 ()).1.isOk = true := by
      decide +kernel
    have hadded : Journal.added .stable (oneAddress.synchronize onePaymentExplorer config none 0 1
        ()).2.1.journal = [⟨⟨"g", 0, .epoch⟩, [onePayment]⟩] := by
      decide +kernel
    generalize hrun : oneAddress.synchronize onePaymentExplorer config none 0 1 () = run at hok hadded
    obtain ⟨_ | stats, w', _⟩ := run
    · cases hok
    have hkeeps : onePaymentExplorer.Keeps replies := fun _ => trivial
    rcases (finalization_in_order oneAddress config none 0 1).2 hkeeps hrun with
      ⟨hlt, -⟩ | ⟨exchanges, r, hrecorded, -, hconcludes, hleaves, hinOrder⟩
    · cases hlt
    · exact ⟨stats, w', exchanges, r, hrecorded, hconcludes, hleaves, hinOrder, hadded⟩

end Run
end WatchWallet
