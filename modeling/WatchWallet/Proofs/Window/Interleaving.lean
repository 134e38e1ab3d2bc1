import Mathlib.Data.List.Dedup
import Mathlib.Data.List.Permutation
import Mathlib.Data.List.Sort
import WatchWallet.Proofs.Store.Blocks
import WatchWallet.Proofs.Window.Gathering

/-!
# Window — Interleaving

The order in which answers come makes no difference.  When the replies of the explorer are determined
by the requests, so are the tasks that follow from a task (`Task.visits`), and every run asks for the
same ones (`Run.Unfolds`).  They decide whether a synchronization succeeds
(`Window.isOk_synchronize_iff`): it does not if a reply to one of them cannot be taken in, be it that
the explorer fails, that the answer breaks its contract or that a gap batch overflows.  What a run
leaves is a matter of the answers, not of their order (`Run.Tally`, `Run.Gathers`): so every run comes
to the same result, or none succeeds (`Window.synchronize_order`).
-/

namespace WatchWallet

/-- What an explorer replies to each request. -/
abbrev Oracle := List String → Option String → Except ExplorerError Answer

/-- The explorer replies what is determined by the request, after whatever delay. -/
def Explorer.Computes {σ : Type} (explorer : Explorer σ) (f : Oracle) : Prop :=
  ∀ addresses start s, (explorer.transactions addresses start s).1 = f addresses start

/-- The answers among the determined replies. -/
def Oracle.replies (f : Oracle) : Replies := fun addresses start a => f addresses start = .ok a

theorem Explorer.Computes.keeps {σ : Type} {explorer : Explorer σ} {f : Oracle}
    (h : explorer.Computes f) : explorer.Keeps f.replies := by
  intro addresses start s a s' hasked
  rw [Oracle.replies, ← h addresses start s, hasked]

namespace Task

variable {f : Oracle} {p : Plan}

/-- The reply to a task. -/
def reply (f : Oracle) (t : Task) : Except ExplorerError Answer := f t.batch.addresses t.start

/-- The tasks that follow from the reply to a task, if it can be taken in. -/
def next (f : Oracle) (p : Plan) (t : Task) : List Task :=
  match t.reply f with
  | .error _ => []
  | .ok a =>
    match t.take p a with
    | .error _ => []
    | .ok finding => t.children p finding

theorem next_of_take {t : Task} {a : Answer} {finding : Finding} (hreply : t.reply f = .ok a)
    (htake : t.take p a = .ok finding) : t.next f p = t.children p finding := by
  rw [next, hreply]
  dsimp only
  rw [htake]

theorem cost_lt_of_mem_next {t c : Task} (hc : c ∈ t.next f p) : c.cost p < t.cost p := by
  unfold next at hc
  split at hc
  · cases hc
  · split at hc
    · cases hc
    · rename_i htake
      exact Nat.lt_of_le_of_lt (Schedule.cost_le_costOf hc)
        (cost_children_lt (take_eq_ok_iff.1 htake).1)

/-- A task and all that follow from it. -/
def visits (f : Oracle) (p : Plan) (t : Task) : List Task :=
  t :: (t.next f p).attach.flatMap fun c => visits f p c.1
termination_by t.cost p
decreasing_by exact cost_lt_of_mem_next c.2

theorem visits_eq (f : Oracle) (p : Plan) (t : Task) :
    t.visits f p = t :: (t.next f p).flatMap (visits f p) := by
  rw [visits, List.flatMap_subtype (g := visits f p) (fun _ _ => rfl), List.unattach_attach]

theorem mem_visits (f : Oracle) (p : Plan) (t : Task) : t ∈ t.visits f p := by
  rw [visits_eq]
  exact List.mem_cons_self

/-- The task with the answer to it, if there is one. -/
def answered (f : Oracle) (t : Task) : Answered := ⟨t, (t.reply f).toOption.getD ⟨[], false⟩⟩

/-- Nothing is wrong with an answer that is taken in. -/
theorem failure?_eq_none_of_take {t : Task} {a : Answer} {finding : Finding}
    (htake : t.take p a = .ok finding) : t.failure? p (.ok a) = none := by
  rw [failure?, htake]

end Task

/-! ### What follows from the answers, in whichever order -/

/-- The addresses of a chain that are paid by what its tasks accept. -/
def Answered.paid (answered : List Answered) (c : Chain) : List String :=
  (answered.filter (·.task.chain = c)).flatMap fun x =>
    (x.task.taken x.answer).flatMap (·.paidAddresses)

/-- As many transactions are kept as there are hashes. -/
theorem Firsts.length_eq {txs kept : List Transaction} (h : Firsts txs kept) :
    kept.length = (txs.map (·.hash)).dedup.length := by
  rw [← List.length_map (f := (·.hash))]
  refine ((List.perm_ext_iff_of_nodup h.nodup (List.nodup_dedup _)).2 fun hash => ?_).length_eq
  rw [List.mem_dedup, List.mem_map, List.mem_map]
  exact h.exists_hash_iff

/-- The store has a block at the height, with a transaction of this hash. -/
def BlockStore.HoldsHash (s : BlockStore) (h : Nat) (hash : String) : Prop :=
  ∃ b, s.blocks.at? h = some b ∧ ∃ tx ∈ b.transactions, tx.hash = hash

/-- The same counters, the same used counts, and the same hashes at every height of the store. -/
structure Scan.Agrees (s₁ s₂ : Scan) : Prop where
  progress : s₁.progress = s₂.progress
  used : ∀ c, (s₁.chains.get c).used = (s₂.chains.get c).used
  holdsHash_iff : ∀ {h hash}, s₁.store.HoldsHash h hash ↔ s₂.store.HoldsHash h hash

namespace Run

variable {f : Oracle} {p : Plan} {replies : Replies} {tasks : List Task} {r r' : Run}

/-- The tasks that were answered, and those that are out with all that follow from them, are what
follows from the first tasks. -/
structure Unfolds (f : Oracle) (p : Plan) (tasks : List Task) (r : Run) : Prop where
  visits : (r.answered.map (·.task) ++ r.out.flatMap (Task.visits f p)).Perm
    (tasks.flatMap (Task.visits f p))
  taken : ∀ x ∈ r.answered, x.task.reply f = .ok x.answer ∧
    x.task.failure? p (.ok x.answer) = none

theorem Unfolds.step (hu : Unfolds f p tasks r) (h : Step p f.replies r r') :
    Unfolds f p tasks r' := by
  cases h.effect with
  | @answer before after t a finding hreply hjudge hout hout' _ _ _ hanswered _ hfits =>
      have htake := Task.take_eq_ok_iff.2 ⟨hjudge, hfits⟩
      refine ⟨?_, fun x hx => ?_⟩
      · -- what follows from `t` is `t` and what follows from its children, which are out now
        refine List.Perm.trans ?_ hu.visits
        rw [hanswered, hout, hout', List.map_append, List.append_assoc]
        refine List.Perm.append_left _ ?_
        simp only [List.flatMap_append, List.flatMap_cons, Task.visits_eq f p t,
          Task.next_of_take hreply htake, List.map_cons, List.map_nil, List.cons_append,
          List.nil_append, List.append_assoc]
        exact List.perm_middle.symm
      · rw [hanswered, List.mem_append, List.mem_singleton] at hx
        rcases hx with hx | rfl
        · exact hu.taken x hx
        · exact ⟨hreply, Task.failure?_eq_none_of_take htake⟩
  | store hout _ _ _ hanswered | none hout _ _ _ hanswered =>
      obtain ⟨hvisits, htaken⟩ := hu
      constructor <;> rw [hanswered]
      · rw [hout]
        exact hvisits
      · exact htaken

/-- The counters and the marks tell what was answered and handed over. -/
structure Tally (w : Window) (r : Run) : Prop where
  progress : r.scan.progress = ⟨r.answered.length, (r.answered.flatMap (·.answer.transactions)).length,
    r.stored.length, (r.stored.flatMap (·.transactions)).length⟩
  chains : ∀ c, r.scan.chains.get c = (w.chains.get c).markAll (Answered.paid r.answered c)

theorem Tally.step {w : Window} (ht : Tally w r) (h : Step p replies r r') : Tally w r' := by
  obtain ⟨hprogress, hchains⟩ := ht
  cases h.effect with
  | @answer before after t a finding _ hjudge _ _ _ hchains' hstored hanswered hprogress' =>
      refine ⟨?_, fun c => ?_⟩
      · rw [hprogress', hstored, hanswered, hprogress, List.length_append, List.flatMap_append,
          List.length_append, List.flatMap_singleton]
        rfl
      · have hpaid : Answered.paid r'.answered c = Answered.paid r.answered c ++
            if t.chain = c then (t.accepted finding a).flatMap (·.paidAddresses) else [] := by
          rw [hanswered, Answered.paid, List.filter_append, List.flatMap_append, List.filter_singleton]
          split <;> simp_all [Answered.paid, Task.taken_of_judge hjudge]
        rw [hchains', Chains.get_update, hpaid, Keychain.markAll_append, ← hchains]
        split <;> rfl
  | @store k _ _ hchains' hstored hanswered hprogress' =>
      refine ⟨?_, fun c => ?_⟩
      · rw [hprogress', hstored, hanswered, hprogress, List.length_append, List.flatMap_append,
          List.length_append]
        cases r.scan.blockAt? k <;> simp [Progress.countBlock]
      · rw [hchains', hanswered]
        exact hchains c
  | none _ _ hchains' hstored hanswered hprogress' =>
      constructor <;> simp only [hprogress', hstored, hanswered, hchains']
      · exact hprogress
      · exact hchains

variable {w : Window} {config : SyncConfig} {first : Option String} {lo hi : Nat} {r₁ r₂ : Run}

theorem unfolds_of_steps (h : Steps (w.plan config) f.replies (start w config first lo hi) r) :
    Unfolds f (w.plan config) (w.bootstrap config first lo hi) r :=
  h.keep (P := Unfolds f (w.plan config) (w.bootstrap config first lo hi))
    (fun hu hstep => hu.step hstep) ⟨.refl _, fun _ hx => absurd hx List.not_mem_nil⟩

theorem tally_of_steps (h : Steps (w.plan config) replies (start w config first lo hi) r) :
    Tally w r :=
  h.keep (P := Tally w) (fun ht hstep => ht.step hstep) ⟨rfl, fun _ => rfl⟩

/-! ### Two runs -/

/-- A run that is over has answered what follows from the first tasks. -/
theorem Unfolds.perm_of_out_eq_nil (hu : Unfolds f p tasks r) (hout : r.out = []) :
    (r.answered.map (·.task)).Perm (tasks.flatMap (Task.visits f p)) := by
  have hvisits := hu.visits
  rwa [hout, List.flatMap_nil, List.append_nil] at hvisits

/-- The answers are determined by the tasks. -/
theorem Unfolds.map_answered (hu : Unfolds f p tasks r) :
    (r.answered.map (·.task)).map (Task.answered f) = r.answered := by
  rw [List.map_map]
  refine (List.map_congr_left fun x hx => ?_).trans (List.map_id _)
  rw [Function.comp_apply, Task.answered, (hu.taken x hx).1]
  rfl

/-- Runs that are over took in the same answers. -/
theorem Unfolds.answered_perm (h₁ : Unfolds f p tasks r₁) (h₂ : Unfolds f p tasks r₂)
    (hout₁ : r₁.out = []) (hout₂ : r₂.out = []) : r₁.answered.Perm r₂.answered := by
  rw [← h₁.map_answered, ← h₂.map_answered]
  exact ((h₁.perm_of_out_eq_nil hout₁).trans (h₂.perm_of_out_eq_nil hout₂).symm).map _

/-- A task that is out follows from the first tasks. -/
theorem Unfolds.mem_visits_of_mem_out (hu : Unfolds f p tasks r) {t : Task} (ht : t ∈ r.out) :
    t ∈ tasks.flatMap (Task.visits f p) := by
  rw [← hu.visits.mem_iff]
  exact List.mem_append_right _ (List.mem_flatMap.2 ⟨t, ht, Task.mem_visits f p t⟩)

/-- When a run is over, every task that follows from the first ones could take in its reply. -/
theorem Unfolds.failure?_eq_none (hu : Unfolds f p tasks r) (hout : r.out = []) {t : Task}
    (ht : t ∈ tasks.flatMap (Task.visits f p)) : t.failure? p (t.reply f) = none := by
  rw [← (hu.perm_of_out_eq_nil hout).mem_iff] at ht
  obtain ⟨x, hx, rfl⟩ := List.mem_map.1 ht
  obtain ⟨hreply, hnone⟩ := hu.taken x hx
  rwa [hreply]

/-- Which hashes the store holds when a run is over. -/
theorem Accounted.holdsHash_iff (hr : Accounted lo hi r) (hrecords : r.Records w)
    (hstage : r.stage = .waiting) (hout : r.out = []) {h : Nat} {hash : String} :
    r.scan.store.HoldsHash h hash ↔ (∃ tx ∈ Answered.takenAt r.answered h, tx.hash = hash) ∨
      Answered.takenAt r.answered h = [] ∧ w.store.HoldsHash h hash := by
  have hblocks : r.scan.store.blocks = w.store.blocks.addAll r.stored := by
    rw [hrecords.store, BlockStore.blocks_foldl_add]
  unfold BlockStore.HoldsHash
  rw [hblocks]
  rcases w.store.blocks.at?_addAll r.stored h with ⟨block, hmem, rfl, hat⟩ | ⟨hnone, hat⟩
  · obtain ⟨hsome, hfirsts⟩ := hr.gathers.block block hmem
    have htaken : Answered.takenAt r.answered block.height ≠ [] := fun hnil =>
      hsome (hfirsts.eq_nil_iff.2 hnil)
    simp only [hat, Option.some.injEq, exists_eq_left', htaken, false_and, or_false]
    exact hfirsts.exists_hash_iff
  · have htaken : Answered.takenAt r.answered h = [] := by
      by_contra hne
      obtain ⟨b, hb, hheight⟩ := (hr.exists_stored_iff hstage hout).2 hne
      exact hnone b hb hheight
    simp [hat, htaken]

/-- Each block holds as many transactions as hashes were accepted at its height. -/
theorem Accounted.map_length_stored (hr : Accounted lo hi r) :
    r.stored.map (·.transactions.length) = (r.stored.map FilledBlock.height).map fun h =>
      ((Answered.takenAt r.answered h).map (·.hash)).dedup.length := by
  rw [List.map_map]
  exact List.map_congr_left fun b hb => (hr.gathers.block b hb).2.length_eq

/-- Runs that are over and accepted something at the same heights handed over blocks of the same
heights. -/
theorem Accounted.map_height_stored_eq (hr₁ : Accounted lo hi r₁) (hr₂ : Accounted lo hi r₂)
    (hstage₁ : r₁.stage = .waiting) (hstage₂ : r₂.stage = .waiting) (hout₁ : r₁.out = [])
    (hout₂ : r₂.out = [])
    (hnil : ∀ h, Answered.takenAt r₁.answered h = [] ↔ Answered.takenAt r₂.answered h = []) :
    r₁.stored.map FilledBlock.height = r₂.stored.map FilledBlock.height := by
  refine hr₁.inOrder.ascending.eq_of_mem_iff hr₂.inOrder.ascending fun h => ?_
  rw [List.mem_map, List.mem_map, hr₁.exists_stored_iff hstage₁ hout₁,
    hr₂.exists_stored_iff hstage₂ hout₂, ne_eq, hnil]

/-- **Runs that are over agree.** -/
theorem agrees_of_steps (h₁ : Steps (w.plan config) f.replies (start w config first lo hi) r₁)
    (h₂ : Steps (w.plan config) f.replies (start w config first lo hi) r₂)
    (hstage₁ : r₁.stage = .waiting) (hstage₂ : r₂.stage = .waiting) (hout₁ : r₁.out = [])
    (hout₂ : r₂.out = []) : r₁.scan.Agrees r₂.scan := by
  have hr₁ := accounted_of_steps h₁
  have hr₂ := accounted_of_steps h₂
  have hperm := (unfolds_of_steps h₁).answered_perm (unfolds_of_steps h₂) hout₁ hout₂
  have htaken : ∀ h, (Answered.takenAt r₁.answered h).Perm (Answered.takenAt r₂.answered h) :=
    fun h => (hperm.flatMap_right _).filter _
  have hnil : ∀ h, Answered.takenAt r₁.answered h = [] ↔ Answered.takenAt r₂.answered h = [] :=
    fun h => ⟨fun hn => List.nil_perm.1 (hn ▸ htaken h), fun hn => List.perm_nil.1 (hn ▸ htaken h)⟩
  refine ⟨?_, fun c => ?_, fun {h hash} => ?_⟩
  · have hheights := hr₁.map_height_stored_eq hr₂ hstage₁ hstage₂ hout₁ hout₂ hnil
    have hblocks : r₁.stored.length = r₂.stored.length := by
      simpa using congrArg List.length hheights
    -- which copies are kept depends on the order, but not how many
    have hwritten : (r₁.stored.flatMap (·.transactions)).length =
        (r₂.stored.flatMap (·.transactions)).length := by
      rw [List.length_flatMap, List.length_flatMap, hr₁.map_length_stored, hr₂.map_length_stored,
        hheights]
      exact congrArg List.sum (List.map_congr_left fun h _ => ((htaken h).map _).dedup.length_eq)
    rw [(tally_of_steps h₁).progress, (tally_of_steps h₂).progress, hperm.length_eq,
      (hperm.flatMap_right _).length_eq, hblocks, hwritten]
  · rw [(tally_of_steps h₁).chains, (tally_of_steps h₂).chains]
    exact Keychain.used_markAll_eq fun {a} => ((hperm.filter _).flatMap_right _).mem_iff
  · rw [hr₁.holdsHash_iff (records_of_steps h₁) hstage₁ hout₁,
      hr₂.holdsHash_iff (records_of_steps h₂) hstage₂ hout₂, hnil]
    simp only [(htaken h).mem_iff]

/-- A synchronization in memory ends with the last answer, or with a reply that cannot be taken in, if its
first batches can be derived. -/
theorem steps_of_computes {σ : Type} {explorer : Explorer σ} (hcomputes : explorer.Computes f)
    {blocks : Blocks} (hstore : w.store = .memory blocks) {w' : Window} {s s' : σ}
    {result : Except Stop WindowStats} (hle : lo ≤ hi)
    (h : w.synchronize explorer config first lo hi s = (result, w', s')) :
    ∃ r, Steps (w.plan config) f.replies (start w config first lo hi) r ∧ r.stage = .waiting ∧
      w.Leaves result r.scan w' ∧
      (w.fits config = true ∧ r.out = [] ∧ result = .ok { r.scan.progress with lo, hi } ∨
        w.fits config = false ∧ result = .error .overflow ∨
        ∃ t ∈ r.out, ∃ stop, t.failure? (w.plan config) (t.reply f) = some stop ∧
          result = .error stop) := by
  obtain ⟨r, hsteps, hstage, hleaves, hok | hunfit | ⟨t, hmem, before, stop, hfail, herr⟩⟩ :=
    ends_in_memory hcomputes.keeps hstore hle h
  · exact ⟨r, hsteps, hstage, hleaves, .inl hok⟩
  · exact ⟨r, hsteps, hstage, hleaves, .inr (.inl hunfit)⟩
  · rw [hcomputes] at hfail
    exact ⟨r, hsteps, hstage, hleaves, .inr (.inr ⟨t, hmem, stop, hfail, herr⟩)⟩

end Run

namespace Window

/-- **What makes a synchronization succeed.**  With an explorer that replies what is determined by the
request, a synchronization in memory succeeds if its first batches can be derived and every task that
follows from them can take in its reply, and only then. -/
theorem isOk_synchronize_iff {f : Oracle} {w w' : Window} {blocks : Blocks}
    (hstore : w.store = .memory blocks) {σ : Type} {explorer : Explorer σ}
    (hcomputes : explorer.Computes f) {config : SyncConfig} {first : Option String} {lo hi : Nat}
    {s s' : σ} {result : Except Stop WindowStats}
    (h : w.synchronize explorer config first lo hi s = (result, w', s')) :
    result.isOk = true ↔ (lo ≤ hi → w.fits config = true) ∧
      ∀ t ∈ (w.bootstrap config first lo hi).flatMap (Task.visits f (w.plan config)),
        t.failure? (w.plan config) (t.reply f) = none := by
  rcases Nat.lt_or_ge hi lo with hlt | hle
  · rw [w.synchronize_of_lt explorer config first hlt] at h
    cases h
    rw [bootstrap_eq_nil_of_lt w config first hlt]
    exact iff_of_true rfl ⟨fun hle => absurd hlt (Nat.not_lt.2 hle),
      fun t ht => absurd ht List.not_mem_nil⟩
  obtain ⟨r, hsteps, -, -, hends⟩ := Run.steps_of_computes hcomputes hstore hle h
  have hu := Run.unfolds_of_steps hsteps
  rcases hends with ⟨hfits, hout, rfl⟩ | ⟨hunfit, rfl⟩ | ⟨t, ht, stop, hfail, rfl⟩
  · exact iff_of_true rfl ⟨fun _ => hfits, fun t ht => hu.failure?_eq_none hout ht⟩
  · refine iff_of_false Bool.false_ne_true fun hall => ?_
    cases hunfit.symm.trans (hall.1 hle)
  · refine iff_of_false Bool.false_ne_true fun hall => ?_
    cases (hall.2 t (hu.mem_visits_of_mem_out ht)).symm.trans hfail

/-- **The order of the answers does not matter.**  The explorer replies what is determined by the
request.  When some run is over, no other run meets a reply that it cannot take in, and when it is over
as well, both agree on the counters, the used counts and the hashes in the store.  Synchronizations in
memory succeed under the same condition, however long the answers take; and of two of them, neither
succeeds, or both do with the same summary, the same used counts, and the same hashes at every height
of the store. -/
theorem synchronize_order {f : Oracle} {w : Window} {config : SyncConfig}
    {first : Option String} {lo hi : Nat} :
    (∀ {r₁ r₂}, Run.Steps (w.plan config) f.replies (.start w config first lo hi) r₁ →
      Run.Steps (w.plan config) f.replies (.start w config first lo hi) r₂ →
      r₁.stage = .waiting → r₁.out = [] →
      (∀ t ∈ r₂.out, t.failure? (w.plan config) (t.reply f) = none) ∧
      (r₂.stage = .waiting → r₂.out = [] → r₁.scan.Agrees r₂.scan)) ∧
    ∀ {blocks}, w.store = .memory blocks →
      (∀ {σ} {explorer : Explorer σ}, explorer.Computes f → ∀ {s s' result w'},
        w.synchronize explorer config first lo hi s = (result, w', s') →
        (result.isOk = true ↔ (lo ≤ hi → w.fits config = true) ∧
          ∀ t ∈ (w.bootstrap config first lo hi).flatMap (Task.visits f (w.plan config)),
            t.failure? (w.plan config) (t.reply f) = none)) ∧
      ∀ {σ₁ σ₂} {explorer₁ : Explorer σ₁} {explorer₂ : Explorer σ₂}, explorer₁.Computes f →
        explorer₂.Computes f → ∀ {s₁ s₁' s₂ s₂' result₁ result₂ w₁ w₂},
        w.synchronize explorer₁ config first lo hi s₁ = (result₁, w₁, s₁') →
        w.synchronize explorer₂ config first lo hi s₂ = (result₂, w₂, s₂') →
        result₁.isOk = false ∧ result₂.isOk = false ∨
        ∃ stats, result₁ = .ok stats ∧ result₂ = .ok stats ∧
          (∀ c, (w₁.chains.get c).used = (w₂.chains.get c).used) ∧
          ∀ {h hash}, w₁.store.HoldsHash h hash ↔ w₂.store.HoldsHash h hash := by
  refine ⟨fun {r₁ r₂} h₁ h₂ hstage₁ hout₁ => ⟨fun t ht => ?_, fun hstage₂ hout₂ => ?_⟩,
    fun {blocks} hstore => ⟨fun {σ explorer} hcomputes {s s' result w'} h => ?_,
      fun {σ₁ σ₂ explorer₁ explorer₂} hcomputes₁ hcomputes₂
        {s₁ s₁' s₂ s₂' result₁ result₂ w₁ w₂} h₁ h₂ => ?_⟩⟩
  · exact (Run.unfolds_of_steps h₁).failure?_eq_none hout₁
      ((Run.unfolds_of_steps h₂).mem_visits_of_mem_out ht)
  · exact Run.agrees_of_steps h₁ h₂ hstage₁ hstage₂ hout₁ hout₂
  · exact isOk_synchronize_iff hstore hcomputes h
  rcases Nat.lt_or_ge hi lo with hlt | hle
  · rw [w.synchronize_of_lt explorer₁ config first hlt] at h₁
    rw [w.synchronize_of_lt explorer₂ config first hlt] at h₂
    cases h₁
    cases h₂
    exact .inr ⟨_, rfl, rfl, fun _ => rfl, Iff.rfl⟩
  have hsame : result₁.isOk = result₂.isOk := by
    rw [Bool.eq_iff_iff, isOk_synchronize_iff hstore hcomputes₁ h₁,
      isOk_synchronize_iff hstore hcomputes₂ h₂]
  obtain ⟨r₁, hsteps₁, hstage₁, hleaves₁, ⟨-, hout₁, rfl⟩ | ⟨-, rfl⟩ | ⟨-, -, _, -, rfl⟩⟩ :=
    Run.steps_of_computes hcomputes₁ hstore hle h₁
  · obtain ⟨r₂, hsteps₂, hstage₂, hleaves₂, ⟨-, hout₂, rfl⟩ | ⟨-, rfl⟩ | ⟨-, -, _, -, rfl⟩⟩ :=
      Run.steps_of_computes hcomputes₂ hstore hle h₂
    · obtain ⟨hprogress, hused, hholds⟩ :=
        Run.agrees_of_steps hsteps₁ hsteps₂ hstage₁ hstage₂ hout₁ hout₂
      refine .inr ⟨_, rfl, by rw [hprogress], fun c => ?_, fun {h hash} => ?_⟩
      · rw [hleaves₁.chains, hleaves₂.chains]
        exact hused c
      · unfold BlockStore.HoldsHash at hholds ⊢
        rw [hleaves₁.store_eq, hleaves₂.store_eq, blocks_save, blocks_save]
        exact hholds
    · cases hsame
    · cases hsame
  · exact .inl ⟨rfl, hsame.symm⟩
  · exact .inl ⟨rfl, hsame.symm⟩

end Window

/-- The same explorer, whose requests take a number of polls each. -/
def Explorer.slowed {σ : Type} (explorer : Explorer σ) : Explorer (σ × List Nat) where
  delay
    | (s, n :: turns) => (n, s, turns)
    | (s, []) => (0, s, [])
  transactions addresses start s :=
    let said := explorer.transactions addresses start s.1
    (said.1, said.2, s.2)
  tip s := ((explorer.tip s.1).1, (explorer.tip s.1).2, s.2)
  block h s := ((explorer.block h s.1).1, (explorer.block h s.1).2, s.2)
  pending addresses s := ((explorer.pending addresses s.1).1, (explorer.pending addresses s.1).2, s.2)

namespace Window

/-- Two addresses, synchronized with a slow explorer that keeps a record. -/
def synchronizeSlowly (turns : List Nat) :
    Except Stop WindowStats × Window × (Unit × List Nat) × List Exchange :=
  twoAddresses.synchronize (threeBlocks.explorer 2).slowed.recorded ⟨0, 1, 1, 2, "g"⟩ (some "g") 0 2
    (((), turns), [])

/-- When the second request takes a poll longer, the third one is answered before it, and nothing else
changes. -/
theorem synchronize_order_threeBlocks :
    (synchronizeSlowly []).2.2.2.map (·.addresses) = [["a"], ["z"], ["a"]] ∧
      (synchronizeSlowly [0, 1]).2.2.2.map (·.addresses) = [["a"], ["a"], ["z"]] ∧
      ∃ stats, (synchronizeSlowly []).1 = .ok stats ∧ (synchronizeSlowly [0, 1]).1 = .ok stats ∧
        (∀ c, ((synchronizeSlowly []).2.1.chains.get c).used =
          ((synchronizeSlowly [0, 1]).2.1.chains.get c).used) ∧
        ∀ {h hash}, (synchronizeSlowly []).2.1.store.HoldsHash h hash ↔
          (synchronizeSlowly [0, 1]).2.1.store.HoldsHash h hash := by
  have hcomputes : (threeBlocks.explorer 2).slowed.recorded.Computes
      fun addresses start => ((threeBlocks.explorer 2).transactions addresses start ()).1 :=
    fun _ _ _ => rfl
  have hstore : twoAddresses.store = .memory .empty := rfl
  have hrun : ∀ turns, twoAddresses.synchronize (threeBlocks.explorer 2).slowed.recorded
      ⟨0, 1, 1, 2, "g"⟩ (some "g") 0 2 (((), turns), []) =
      ((synchronizeSlowly turns).1, (synchronizeSlowly turns).2.1, (synchronizeSlowly turns).2.2) :=
    fun _ => rfl
  have hok : (synchronizeSlowly []).1.isOk = true := by decide +kernel
  refine ⟨by decide +kernel, by decide +kernel, ?_⟩
  rcases (synchronize_order.2 hstore).2 hcomputes hcomputes (hrun []) (hrun [0, 1]) with
    ⟨hfailed, -⟩ | hsame
  · cases hok.symm.trans hfailed
  · exact hsame

end Window
end WatchWallet
