import WatchWallet.Proofs.Window.Completeness
import WatchWallet.Proofs.Window.Exchanges

/-!
# Window — Gathering

What becomes of the transactions that tasks accept, whatever the explorer answers.  They enter the
bucket of a height only while a task is registered there, and of those with the same hash the first
stays (`Run.Gathers`).  So when every task has reported, each height is finalized, nothing waits any
more, and the blocks hold what was accepted, no more and no less (`Run.nothing_lost`).
-/

namespace WatchWallet

/-! ### What is accepted -/

/-- What a task accepts of an answer; of one that breaks the contract, nothing. -/
def Task.taken (t : Task) (a : Answer) : List Transaction :=
  match t.judge a with
  | .ok f => t.accepted f a
  | .error _ => []

theorem Task.taken_of_judge {t : Task} {a : Answer} {f : Finding} (h : t.judge a = .ok f) :
    t.taken a = t.accepted f a := by
  rw [taken, h]

/-- What tasks accept of their answers at a height, in the order of the answers. -/
def Answered.takenAt (answered : List Answered) (h : Nat) : List Transaction :=
  (answered.flatMap fun x => x.task.taken x.answer).filter (·.height? = some h)

theorem Answered.takenAt_concat (answered : List Answered) (t : Task) (a : Answer) (h : Nat) :
    takenAt (answered ++ [⟨t, a⟩]) h =
      takenAt answered h ++ (t.taken a).filter (·.height? = some h) := by
  simp [takenAt]

/-- The list keeps, of the transactions with the same hash, the first. -/
structure Firsts (txs kept : List Transaction) : Prop where
  nodup : (kept.map (·.hash)).Nodup
  mem_iff : ∀ {tx}, tx ∈ kept ↔ txs.find? (·.hash == tx.hash) = some tx

namespace Firsts

variable {txs kept : List Transaction} {tx : Transaction}

theorem nil : Firsts [] [] := ⟨List.nodup_nil, by simp⟩

theorem mem_of_find? (h : Firsts txs kept) {hash : String}
    (hfind : txs.find? (·.hash == hash) = some tx) : tx ∈ kept ∧ tx.hash = hash := by
  have hhash := List.find?_some hfind
  obtain rfl := eq_of_beq hhash
  exact ⟨h.mem_iff.2 hfind, rfl⟩

/-- Every hash is kept. -/
theorem exists_hash_iff (h : Firsts txs kept) {hash : String} :
    (∃ tx ∈ kept, tx.hash = hash) ↔ ∃ tx ∈ txs, tx.hash = hash := by
  constructor
  · rintro ⟨tx, hmem, rfl⟩
    exact ⟨tx, List.mem_of_find?_eq_some (h.mem_iff.1 hmem), rfl⟩
  · rintro ⟨tx, hmem, rfl⟩
    cases hfind : txs.find? (·.hash == tx.hash) with
    | none => exact absurd (beq_self_eq_true tx.hash) (List.find?_eq_none.1 hfind tx hmem)
    | some y => exact ⟨y, h.mem_of_find? hfind⟩

theorem eq_nil_iff (h : Firsts txs kept) : kept = [] ↔ txs = [] := by
  constructor
  · rintro rfl
    refine List.eq_nil_iff_forall_not_mem.2 fun tx hmem => ?_
    obtain ⟨y, hy, -⟩ := h.exists_hash_iff.2 ⟨tx, hmem, rfl⟩
    cases hy
  · rintro rfl
    refine List.eq_nil_iff_forall_not_mem.2 fun tx hmem => ?_
    obtain ⟨y, hy, -⟩ := h.exists_hash_iff.1 ⟨tx, hmem, rfl⟩
    cases hy

/-- A transaction with a hash that is kept comes too late. -/
theorem skip (h : Firsts txs kept) (hold : ∃ y ∈ kept, y.hash = tx.hash) :
    Firsts (txs ++ [tx]) kept := by
  refine ⟨h.nodup, fun {z} => ?_⟩
  rw [h.mem_iff, List.find?_append]
  cases hfind : txs.find? (·.hash == z.hash) with
  | some y => rw [Option.some_or]
  | none =>
      obtain ⟨y, hy, hhash⟩ := hold
      have hother : (tx.hash == z.hash) = false := by
        refine beq_eq_false_iff_ne.2 fun he => ?_
        rw [← he, ← hhash, h.mem_iff.1 hy] at hfind
        cases hfind
      simp [hother]

/-- A transaction with a new hash is kept. -/
theorem concat (h : Firsts txs kept) (hnew : ∀ y ∈ kept, y.hash ≠ tx.hash) :
    Firsts (txs ++ [tx]) (kept ++ [tx]) := by
  refine ⟨?_, fun {z} => ?_⟩
  · rw [List.map_append, List.nodup_append]
    refine ⟨h.nodup, by simp, fun hash hmem hash' hmem' => ?_⟩
    obtain ⟨y, hy, rfl⟩ := List.mem_map.1 hmem
    obtain rfl : hash' = tx.hash := by simpa using hmem'
    exact hnew y hy
  · rw [List.mem_append, List.mem_singleton, h.mem_iff, List.find?_append]
    cases hfind : txs.find? (·.hash == z.hash) with
    | some y =>
        obtain ⟨hy, hhash⟩ := h.mem_of_find? hfind
        rw [Option.some_or]
        refine or_iff_left fun he => hnew y hy ?_
        rw [hhash, he]
    | none =>
        rw [Option.none_or, List.find?_singleton]
        by_cases he : z = tx
        · subst he
          simp
        · simp [he, show tx ≠ z from fun e => he e.symm]

end Firsts

/-! ### The buckets -/

namespace Buckets

/-- A bucket keeps the first transaction of each hash. -/
theorem firsts_addAll {b : Buckets} {txs all : List Transaction} {h : Nat}
    (hb : Firsts all (b.get h)) :
    Firsts (all ++ txs.filter (·.height? = some h)) ((b.addAll txs).get h) := by
  induction txs generalizing b all with
  | nil =>
      rw [List.filter_nil, List.append_nil]
      exact hb
  | cons tx txs ih =>
      have hget := get_add b tx h
      by_cases hh : tx.height? = some h
      · have hrest : all ++ (tx :: txs).filter (·.height? = some h) =
            (all ++ [tx]) ++ txs.filter (·.height? = some h) := by simp [hh]
        rw [hrest]
        refine ih ?_
        by_cases hacc : b.accepts tx = true
        · rw [hget, if_pos ⟨hh, hacc⟩]
          refine hb.concat ?_
          simpa [accepts, hh] using hacc
        · rw [hget, if_neg fun hc => hacc hc.2]
          refine hb.skip ?_
          simpa [accepts, hh] using hacc
      · rw [List.filter_cons_of_neg (by simpa using hh)]
        refine ih ?_
        rw [hget, if_neg fun hc => hh hc.1]
        exact hb

/-- No bucket is there without a transaction in it. -/
def Filled (b : Buckets) : Prop := ∀ h : Nat, b.byHeight[h]? ≠ some []

theorem filled_empty : Filled empty := by
  intro h
  simp [empty]

theorem Filled.add {b : Buckets} (hb : b.Filled) (tx : Transaction) : (b.add tx).Filled := by
  intro h
  unfold Buckets.add
  split
  · exact hb h
  · rename_i k _
    split
    · by_cases he : k = h
      · subst he
        simp
      · simpa [Std.ExtTreeMap.getElem?_insert, he] using hb h
    · exact hb h

theorem Filled.addAll {b : Buckets} (hb : b.Filled) (txs : List Transaction) :
    (b.addAll txs).Filled := by
  induction txs generalizing b with
  | nil => exact hb
  | cons tx txs ih => exact ih (hb.add tx)

theorem Filled.remove {b : Buckets} (hb : b.Filled) (k : Nat) : (b.remove k).Filled := by
  intro h
  unfold Buckets.remove
  by_cases he : k = h
  · subst he
    simp
  · simpa [Std.ExtTreeMap.getElem?_erase, he] using hb h

/-- Buckets without transactions are no buckets. -/
theorem Filled.size_eq_zero {b : Buckets} (hb : b.Filled) (hnil : ∀ h, b.get h = []) :
    b.size = 0 := by
  have hempty : b.byHeight = ∅ := by
    refine Std.ExtTreeMap.ext_getElem? fun h => ?_
    have hh := hnil h
    unfold get at hh
    cases hbucket : b.byHeight[h]? with
    | none => simp
    | some txs =>
        rw [hbucket, Option.getD_some] at hh
        exact absurd (hh ▸ hbucket) (hb h)
  rw [size, hempty]
  exact Std.ExtTreeMap.size_empty

end Buckets

/-- Where every height is complete, none is unfinalized. -/
theorem Tracker.unfinalized_eq_nil {t : Tracker}
    (h : ∀ {x s}, t.state? x = some s → t.isComplete x = true) : t.unfinalized = [] := by
  refine List.filter_eq_nil_iff.2 fun x hx => ?_
  obtain ⟨hlo, hlt⟩ := List.mem_range'_1.1 hx
  have hnumber : t.states.size % UInt32.size ≤ t.states.size := Nat.mod_le ..
  have hsize : x - t.lo < t.states.size := by omega
  have hstate : t.state? x = some t.states[x - t.lo] := by
    rw [state?, if_pos hlo, Array.getElem?_eq_getElem hsize]
  simp [h hstate]

namespace Run

variable {p : Plan} {replies : Replies} {lo hi : Nat} {r r' : Run}

/-! ### What a run gathers -/

/-- Blocks and buckets hold what was accepted at their heights, of each hash the first. -/
structure Gathers (lo hi : Nat) (r : Run) : Prop where
  block : ∀ b ∈ r.stored, b.transactions ≠ [] ∧
    Firsts (Answered.takenAt r.answered b.height) b.transactions
  bucket : ∀ h, (∀ b ∈ r.stored, b.height ≠ h) →
    Firsts (Answered.takenAt r.answered h) (r.scan.buckets.get h)
  within : ∀ h, Answered.takenAt r.answered h ≠ [] → lo ≤ h ∧ h ≤ hi
  filled : r.scan.buckets.Filled

/-- Whatever a task that is out accepts, it is registered on the height and has not reported. -/
theorem Sound.unreported_of_mem_taken (hs : Sound lo hi r) {t : Task} (ht : t ∈ r.out) {a : Answer}
    {tx : Transaction} {h : Nat} (htx : tx ∈ t.taken a) (hh : tx.height? = some h) :
    t ∈ r.unreported h ∧ lo ≤ h ∧ h ≤ hi := by
  cases hjudge : t.judge a with
  | error v =>
      rw [Task.taken, hjudge] at htx
      cases htx
  | ok f =>
      rw [Task.taken_of_judge hjudge] at htx
      obtain ⟨-, k, hk, hlo, hhi⟩ := Task.height?_of_mem_accepted hjudge htx
      obtain rfl := Option.some.inj (hh.symm.trans hk)
      obtain ⟨hlow, -, hend⟩ := hs.out_within t ht
      refine ⟨List.mem_append_left _ (List.mem_filter.2 ⟨ht, ?_⟩), by omega, by omega⟩
      exact Task.covers_iff.2 ⟨hlo, hhi⟩

theorem Gathers.answer (hg : Gathers lo hi r) (hs : Sound lo hi r) (ho : InOrder r) {t : Task}
    {a : Answer} {f : Finding} (ht : t ∈ r.out) (hjudge : t.judge a = .ok f)
    (hbuckets : r'.scan.buckets = r.scan.buckets.addAll (t.accepted f a))
    (hstored : r'.stored = r.stored) (hanswered : r'.answered = r.answered ++ [⟨t, a⟩]) :
    Gathers lo hi r' := by
  have htaken : ∀ h, Answered.takenAt r'.answered h =
      Answered.takenAt r.answered h ++ (t.accepted f a).filter (·.height? = some h) := by
    intro h
    rw [hanswered, Answered.takenAt_concat, Task.taken_of_judge hjudge]
  refine ⟨fun b hb => ?_, fun h hnone => ?_, fun h hne => ?_, ?_⟩
  · rw [hstored] at hb
    obtain ⟨hne, hfirsts⟩ := hg.block b hb
    -- no task is registered any more on a height whose block is handed over
    have hnothing : (t.accepted f a).filter (·.height? = some b.height) = [] := by
      refine List.filter_eq_nil_iff.2 fun tx htx hheight => ?_
      rw [← Task.taken_of_judge hjudge] at htx
      have hmem := (hs.unreported_of_mem_taken ht htx (of_decide_eq_true hheight)).1
      have hnot := hs.not_isComplete_of_mem hmem
      rw [(ho.isComplete b hb).1] at hnot
      cases hnot
    rw [htaken, hnothing, List.append_nil]
    exact ⟨hne, hfirsts⟩
  · rw [hstored] at hnone
    rw [htaken, hbuckets]
    exact Buckets.firsts_addAll (hg.bucket h hnone)
  · rw [htaken] at hne
    by_cases hold : Answered.takenAt r.answered h = []
    · rw [hold, List.nil_append] at hne
      obtain ⟨tx, htx⟩ := List.exists_mem_of_ne_nil _ hne
      obtain ⟨htx, hheight⟩ := List.mem_filter.1 htx
      rw [← Task.taken_of_judge hjudge] at htx
      exact (hs.unreported_of_mem_taken ht htx (of_decide_eq_true hheight)).2
    · exact hg.within h hold
  · rw [hbuckets]
    exact hg.filled.addAll _

theorem Gathers.store (hg : Gathers lo hi r) (hs : Sound lo hi r) {k : Nat}
    (hfresh : ∀ b ∈ r.stored, b.height ≠ k)
    (hbuckets : r'.scan.buckets = r.scan.buckets.remove k)
    (hstored : r'.stored = r.stored ++ (r.scan.blockAt? k).toList)
    (hanswered : r'.answered = r.answered) : Gathers lo hi r' := by
  have hwaits := hg.bucket k hfresh
  refine ⟨fun b hb => ?_, fun h hnone => ?_, fun h => ?_, ?_⟩
  · rw [hstored, List.mem_append] at hb
    rw [hanswered]
    rcases hb with hb | hb
    · exact hg.block b hb
    · obtain ⟨hheight, htxs, tx, htx, -⟩ := hs.of_blockAt? (Option.mem_toList.1 hb)
      refine ⟨List.ne_nil_of_mem htx, ?_⟩
      rw [hheight, htxs]
      exact hwaits
  · rw [hanswered, hbuckets, Buckets.get_remove]
    simp only [hstored, List.mem_append] at hnone
    split
    · rename_i he
      subst he
      rcases hs.blockAt?_cases h with ⟨hempty, -⟩ | ⟨block, hblock, hheight, -, -⟩
      · exact hempty ▸ hwaits
      · exact absurd hheight (hnone block (.inr (Option.mem_toList.2 hblock)))
    · exact hg.bucket h fun b hb => hnone b (.inl hb)
  · rw [hanswered]
    exact hg.within h
  · rw [hbuckets]
    exact hg.filled.remove k

theorem Gathers.step (hg : Gathers lo hi r) (hs : Sound lo hi r) (ho : InOrder r)
    (h : Step p replies r r') : Gathers lo hi r' := by
  cases h.effect with
  | answer _ hjudge hout _ hbuckets _ hstored hanswered =>
      exact hg.answer hs ho (hout ▸ List.mem_append_right _ List.mem_cons_self) hjudge hbuckets
        hstored hanswered
  | store _ hbuckets _ hstored hanswered _ hstage =>
      obtain ⟨t, hstage⟩ := hstage
      refine hg.store hs (fun b hb => Nat.ne_of_lt ?_) hbuckets hstored hanswered
      have habove := (ho.isComplete b hb).2
      rwa [hstage] at habove
  | none _ hbuckets _ hstored hanswered =>
      refine ⟨?_, ?_, ?_, hbuckets ▸ hg.filled⟩ <;> simp only [hstored, hbuckets, hanswered]
      · exact hg.block
      · exact hg.bucket
      · exact hg.within

/-- A height is finalizing only until the task that completed it has handed over its block. -/
def Closing (r : Run) : Prop :=
  ∀ h, r.scan.tracker.state? h = some .finalizing → r.stage.completed? = some h

theorem Closing.step (hc : Closing r) (h : Step p replies r r') : Closing r' := by
  intro x hx
  have hbefore := hc x
  cases h with
  | answer _ _ =>
      rw [Scan.state?_takeIn] at hx
      obtain ⟨s, hs, hreg⟩ := Option.map_eq_some_iff.1 hx
      rw [HeightState.registerMany_eq_finalizing_iff] at hreg
      cases hbefore (hreg ▸ hs)
  | report _ hlast =>
      rw [Scan.state?_track_report] at hx
      split at hx
      · rename_i he
        subst he
        obtain ⟨s, hs, hreport⟩ := Option.map_eq_some_iff.1 hx
        rcases HeightState.report_eq_finalizing_iff.1 hreport with rfl | hone
        · cases hbefore hs
        -- a report that is not the last one completes nothing
        · rw [Tracker.isLast, hs, Option.any_some, hone] at hlast
          cases hlast
      · exact hbefore hx
  | complete _ _ =>
      rw [Scan.state?_track_report] at hx
      split at hx
      · rename_i he
        exact congrArg some he.symm
      · cases hbefore hx
  | store =>
      rw [Scan.tracker_storeBlock] at hx
      exact hbefore hx
  | settle =>
      rw [Scan.state?_track_settle] at hx
      split at hx
      · obtain ⟨s, -, hsettle⟩ := Option.map_eq_some_iff.1 hx
        exact absurd hsettle (HeightState.settle_ne_finalizing s)
      · rename_i hne
        exact absurd (Option.some.inj (hbefore hx)).symm hne
  | done _ => cases hbefore hx

/-! ### When nothing is out any more -/

/-- What holds in every state of a run, whatever the explorer answers. -/
structure Accounted (lo hi : Nat) (r : Run) : Prop where
  sound : Sound lo hi r
  inOrder : InOrder r
  drained : Drained r
  gathers : Gathers lo hi r
  closing : Closing r

theorem accounted_start (w : Window) (config : SyncConfig) (first : Option String) (lo hi : Nat) :
    Accounted lo hi (start w config first lo hi) := by
  refine ⟨sound_start w config first lo hi, .start w config first lo hi,
    fun h _ _ => Buckets.get_empty h, ⟨?_, fun h _ => ?_, fun h hne => absurd rfl hne,
      Buckets.filled_empty⟩, fun h hh => ?_⟩
  · rw [stored_start]
    exact fun b hb => absurd hb List.not_mem_nil
  · rw [show (start w config first lo hi).scan.buckets.get h = [] from Buckets.get_empty h]
    exact .nil
  · rw [state?_start] at hh
    split at hh <;> cases hh

theorem accounted_of_steps {w : Window} {config : SyncConfig} {first : Option String}
    (h : Steps (w.plan config) replies (start w config first lo hi) r) : Accounted lo hi r :=
  h.keep (P := Accounted lo hi)
    (fun hr hstep => ⟨hr.sound.step hstep, hr.inOrder.step hr.sound hstep,
      hr.drained.step hr.sound hstep, hr.gathers.step hr.sound hr.inOrder hstep,
      hr.closing.step hstep⟩)
    (accounted_start w config first lo hi)

/-- The journal of a run that is over holds one block for each height at which something was accepted,
with the first transaction of each hash; every height is finalized, and nothing waits. -/
structure Finished (w : Window) (lo hi : Nat) (r : Run) : Prop where
  finalized : ∀ h, lo ≤ h → h ≤ hi → r.scan.tracker.state? h = some .finalized
  unfinalized : r.scan.tracker.unfinalized = []
  empty : r.scan.buckets.size = 0
  journal : ∃ acts, r.scan.journal = w.journal ++ acts ∧
    ((Journal.added w.kind acts).map FilledBlock.height).Pairwise (· < ·) ∧
    (∀ b ∈ Journal.added w.kind acts,
      Firsts (Answered.takenAt r.answered b.height) b.transactions) ∧
    ∀ h, (∃ b ∈ Journal.added w.kind acts, b.height = h) ↔ Answered.takenAt r.answered h ≠ []

variable {w : Window} {config : SyncConfig} {first : Option String}

/-- A transaction enters the bucket of a height only while a task is registered there. -/
theorem Accounted.pending_of_mem (hr : Accounted lo hi r) (h : Step p replies r r') {k : Nat}
    {tx : Transaction} (hnow : tx ∈ r'.scan.buckets.get k) (hbefore : tx ∉ r.scan.buckets.get k) :
    ∃ n, r.scan.tracker.state? k = some (.pending n) ∧ 1 ≤ n := by
  cases h.effect with
  | @answer before after t a f _ hjudge hout _ hbuckets _ _ =>
      rw [hbuckets] at hnow
      obtain hold | ⟨hmem, hheight⟩ := Buckets.mem_get_addAll hnow
      · exact absurd hold hbefore
      · have ht : t ∈ r.out := hout ▸ List.mem_append_right _ List.mem_cons_self
        rw [← Task.taken_of_judge hjudge] at hmem
        obtain ⟨hunreported, hlo, hhi⟩ := hr.sound.unreported_of_mem_taken ht hmem hheight
        exact ⟨_, hr.sound.state?_of_mem hunreported hlo hhi, List.length_pos_of_mem hunreported⟩
  | store _ hbuckets _ _ =>
      rw [hbuckets, Buckets.get_remove] at hnow
      split at hnow
      · cases hnow
      · exact absurd hnow hbefore
  | none _ hbuckets _ _ => exact absurd (hbuckets ▸ hnow) hbefore

/-- With a batch to ask for, a task was launched. -/
theorem launched_ne_nil_of_steps (hbatch : ∃ c, ∃ b ∈ Batch.bootstrap (w.chains.get c)
      config.batchSize.toNat config.gapSize.toNat, b.isEmpty = false) (hle : lo ≤ hi)
    (h : Steps (w.plan config) replies (start w config first lo hi) r) : r.launched ≠ [] := by
  refine h.keep (P := fun r => r.launched ≠ []) (fun hne hstep hnil =>
    hne (launched_of_step hstep hnil)) ?_
  obtain ⟨c, b, hb, hne⟩ := hbatch
  have hlive : Task.isLive ⟨c, b, first, lo, hi⟩ = true := by
    simp [Task.isLive, hne, hle]
  rw [launched_start]
  exact List.ne_nil_of_mem (Window.mem_bootstrap.2 ⟨⟨c, b, hb, rfl⟩, hlive⟩)

/-- When no task is out any more, nothing waits. -/
theorem Accounted.get_eq_nil (hr : Accounted lo hi r) (hstage : r.stage = .waiting)
    (hout : r.out = []) (k : Nat) : r.scan.buckets.get k = [] := by
  by_cases hin : lo ≤ k ∧ k ≤ hi
  · refine hr.drained.get_eq_nil hr.sound hstage hin.1 hin.2 ?_
    simp [unreported, hstage, hout, Stage.unreported]
  · have hfresh : ∀ b ∈ r.stored, b.height ≠ k := fun b hb he =>
      hin (he ▸ hr.sound.le_of_isComplete (hr.inOrder.isComplete b hb).1)
    refine (hr.gathers.bucket k hfresh).eq_nil_iff.2 ?_
    by_contra hne
    exact hin (hr.gathers.within k hne)

/-- When no task is out any more, there is a block for each height at which something was accepted. -/
theorem Accounted.exists_stored_iff (hr : Accounted lo hi r) (hstage : r.stage = .waiting)
    (hout : r.out = []) {k : Nat} :
    (∃ b ∈ r.stored, b.height = k) ↔ Answered.takenAt r.answered k ≠ [] := by
  constructor
  · rintro ⟨b, hb, rfl⟩
    obtain ⟨hsome, hfirsts⟩ := hr.gathers.block b hb
    exact fun hnil => hsome (hfirsts.eq_nil_iff.2 hnil)
  · intro hne
    by_contra hnone
    have hfirsts := hr.gathers.bucket k fun b hb he => hnone ⟨b, hb, he⟩
    exact hne (hfirsts.eq_nil_iff.1 (hr.get_eq_nil hstage hout k))

theorem finished_of_out_eq_nil (hbatch : ∃ c, ∃ b ∈ Batch.bootstrap (w.chains.get c)
      config.batchSize.toNat config.gapSize.toNat, b.isEmpty = false)
    (h : Steps (w.plan config) replies (start w config first lo hi) r)
    (hstage : r.stage = .waiting) (hout : r.out = []) : r.Finished w lo hi := by
  have hr := accounted_of_steps h
  have hcomplete : ∀ {k}, lo ≤ k → k ≤ hi → r.scan.tracker.isComplete k = true := by
    intro k hlo hhi
    rcases hr.sound.height k hlo hhi with ⟨-, hnone⟩ | ⟨hc, -⟩
    · refine absurd (hnone ?_) (launched_ne_nil_of_steps hbatch (Nat.le_trans hlo hhi) h)
      simp [unreported, hout, hstage, Stage.unreported]
    · exact hc
  obtain ⟨acts, hjournal, hadded⟩ := (records_of_steps h).journal
  refine ⟨fun k hlo hhi => ?_, Tracker.unfinalized_eq_nil fun {x s} hx => ?_,
    hr.gathers.filled.size_eq_zero (hr.get_eq_nil hstage hout), acts, hjournal, ?_⟩
  · obtain ⟨s, hstate, hs'⟩ := Tracker.isComplete_iff.1 (hcomplete hlo hhi)
    cases s with
    | pending n => cases hs'
    | finalizing =>
        have hlate := hr.closing k hstate
        rw [hstage] at hlate
        cases hlate
    | finalized => exact hstate
  · by_cases hin : lo ≤ x ∧ x ≤ hi
    · exact hcomplete hin.1 hin.2
    · rw [hr.sound.outside x hin] at hx
      cases hx
  · rw [hadded]
    exact ⟨hr.inOrder.ascending, fun b hb => (hr.gathers.block b hb).2,
      fun k => hr.exists_stored_iff hstage hout⟩

/-- **Nothing that is accepted is lost or doubled**, whatever the explorer answers and in whichever
order, if there is a batch to ask for.  In every state of a run, a transaction enters the bucket of a
height only while the height is pending and counts a task; when no task is out any more, the run is
finished; and a synchronization that succeeds on some heights is such a run, which took in the answers
that the explorer gave. -/
theorem nothing_lost (hbatch : ∃ c, ∃ b ∈ Batch.bootstrap (w.chains.get c) config.batchSize.toNat
      config.gapSize.toNat, b.isEmpty = false) :
    (∀ {replies r}, Steps (w.plan config) replies (start w config first lo hi) r →
      (∀ {r'}, Step (w.plan config) replies r r' → ∀ {k tx}, tx ∈ r'.scan.buckets.get k →
        tx ∉ r.scan.buckets.get k →
        ∃ n, r.scan.tracker.state? k = some (.pending n) ∧ 1 ≤ n) ∧
      (r.stage = .waiting → r.out = [] → r.Finished w lo hi)) ∧
    ∀ {σ} {explorer : Explorer σ} {s s' stats w'},
      w.synchronize explorer config first lo hi s = (.ok stats, w', s') →
      hi < lo ∧ w' = w ∨
      ∃ exchanges r, w.synchronize explorer.recorded config first lo hi (s, []) =
          (.ok stats, w', s', exchanges) ∧
        Steps (w.plan config) (fun _ _ _ => True) (start w config first lo hi) r ∧
        exchanges = r.answered.map Answered.exchange ∧ w.Leaves (.ok stats) r.scan w' ∧
        r.Finished w lo hi := by
  refine ⟨fun {replies r} h => ⟨fun {r'} hstep {k tx} => ?_, finished_of_out_eq_nil hbatch h⟩,
    fun {σ explorer s s' stats w'} h => ?_⟩
  · exact (accounted_of_steps h).pending_of_mem hstep
  rcases Nat.lt_or_ge hi lo with hlt | hle
  · rw [Window.synchronize_of_lt w explorer config first hlt] at h
    cases h
    exact .inl ⟨hlt, rfl⟩
  · have hkeeps : explorer.Keeps fun _ _ _ => True := fun _ => trivial
    obtain ⟨exchanges, hrecorded, r, hsteps, hstage, hleaves, hconcludes⟩ :=
      exchanges_of_synchronize hkeeps hle h
    refine .inr ⟨exchanges, r, hrecorded, hsteps, ?_⟩
    generalize hresult : Except.ok stats = result at hconcludes
    cases hconcludes with
    | unfit _ _ => cases hresult
    | joined _ hout => exact ⟨rfl, hresult ▸ hleaves, finished_of_out_eq_nil hbatch hsteps hstage hout⟩
    | failed _ _ => cases hresult

/-- An answer with two copies of a payment: the first one is handed over, and the height above it is
finalized without a block. -/
theorem nothing_lost_twice :
    let config : SyncConfig := ⟨0, 1, 1, 1, "g"⟩
    let again : Transaction := { onePayment with version := 2 }
    ∃ r, Steps (oneAddress.plan config) (fun _ _ _ => True) (start oneAddress config none 0 1) r ∧
      r.Finished oneAddress 0 1 ∧ Answered.takenAt r.answered 0 = [onePayment, again] ∧
      Journal.added .stable r.scan.journal = [⟨⟨"g", 0, .epoch⟩, [onePayment]⟩] := by
  intro config again
  let t : Task := ⟨.receive, ⟨["a"], 0, .gap⟩, none, 0, 1⟩
  have hfirst : oneAddress.bootstrap config none 0 1 = [] ++ t :: [] := by decide +kernel
  have hbatch : ∃ c, ∃ b ∈ Batch.bootstrap (oneAddress.chains.get c) config.batchSize.toNat
      config.gapSize.toNat, b.isEmpty = false := ⟨.receive, t.batch, by decide, rfl⟩
  have hanswer : Step (oneAddress.plan config) (fun _ _ _ => True)
      ⟨(oneAddress.scan 0 1).launch ([] ++ t :: []), [] ++ t :: [], .waiting,
        [.launch ([] ++ t :: [])]⟩ _ :=
    .answer (a := ⟨[onePayment, again], false⟩) trivial rfl rfl
  have hsteps := Steps.more hanswer
    (.more (.complete (by decide) rfl) (.more .store (.more .settle
      (.more (.complete (by decide) rfl) (.more .store (.more .settle
        (.one (.done (by decide)))))))))
  rw [← hfirst] at hsteps
  exact ⟨_, hsteps, ((nothing_lost hbatch).1 hsteps).2 rfl rfl, rfl, rfl⟩

end Run
end WatchWallet
