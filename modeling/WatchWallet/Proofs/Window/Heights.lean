import WatchWallet.Window.Scan

/-!
# Window — Heights

What the operations of a scan do to a single height.  The tasks that follow from an answer keep to
the heights of its task (`Task.within_of_mem_children`).  Each height of the tracker counts the tasks
that cover it and have not reported (`state?_registerAll`), and the bucket of a height holds each
hash once, from the transactions that were added with this height (`mem_get_addAll`,
`exists_hash_mem_get_addAll`, `nodup_get_addAll`).
-/

namespace WatchWallet

/-- Whether a task asks for a height. -/
def Task.covers (h : Nat) (t : Task) : Bool := t.lo ≤ h && h ≤ t.hi

theorem Task.covers_iff {t : Task} {h : Nat} : t.covers h = true ↔ t.lo ≤ h ∧ h ≤ t.hi := by
  simp [Task.covers]

namespace Task

variable {p : Plan} {t c : Task} {f : Finding}

theorem isLive_iff : t.isLive = true ↔ t.batch.addresses ≠ [] ∧ t.lo ≤ t.hi := by
  simp [isLive, Batch.isEmpty]

/-- The tasks that follow from an answer are a next gap task and a continuation. -/
theorem mem_children_active {low high : Block} {lastFull : Nat} :
    c ∈ t.children p (.active low high lastFull) ↔
      (t.batch.isGap = true ∧ c = t.nextGap p low ∨
        lastFull < t.hi ∧ c = t.continuation high lastFull) ∧ c.isLive = true := by
  rw [children, List.mem_filter, List.mem_append]
  cases t.batch.isGap <;> by_cases hlt : lastFull < t.hi <;> simp [hlt]

theorem isLive_of_mem_children (hc : c ∈ t.children p f) : c.isLive = true := by
  cases f with
  | quiet => cases hc
  | active low high lastFull => exact (mem_children_active.1 hc).2

/-- The tasks that follow from an answer ask for a part of the heights of the answered task, up to
the same end. -/
theorem within_of_mem_children {a : Answer} (hjudge : t.judge a = .ok f) (hc : c ∈ t.children p f) :
    t.lo ≤ c.lo ∧ c.lo ≤ c.hi ∧ c.hi = t.hi := by
  cases f with
  | quiet => cases hc
  | active low high lastFull =>
      obtain ⟨hlow, hfull⟩ := le_of_judge hjudge
      obtain ⟨⟨-, rfl⟩ | ⟨hrest, rfl⟩, hlive⟩ := mem_children_active.1 hc
      · exact ⟨hlow, (isLive_iff.1 hlive).2, rfl⟩
      · exact ⟨show t.lo ≤ lastFull + 1 by omega, hrest, rfl⟩

end Task

/-! ### The state of a height -/

namespace HeightState

/-- Several batches go out at once; a complete height takes none of them. -/
def registerMany (s : HeightState) (k : Nat) : HeightState :=
  match s with
  | pending n => pending (n + k)
  | s => s

@[simp] theorem registerMany_zero (s : HeightState) : s.registerMany 0 = s := by
  cases s <;> rfl

theorem registerMany_register (s : HeightState) (k : Nat) :
    s.register.registerMany k = s.registerMany (k + 1) := by
  cases s with
  | pending n => simp only [register, registerMany, Nat.add_assoc, Nat.add_comm 1 k]
  | finalizing => rfl
  | finalized => rfl

theorem isLast_iff {s : HeightState} : s.isLast = true ↔ s = pending 1 := by
  unfold isLast
  split <;> simp_all

@[simp] theorem isComplete_registerMany (s : HeightState) (k : Nat) :
    (s.registerMany k).isComplete = s.isComplete := by
  cases s <;> rfl

/-- A report completes a height if it is the last one. -/
theorem isComplete_report (s : HeightState) : s.report.isComplete = (s.isComplete || s.isLast) := by
  match s with
  | pending 0 | pending 1 | pending (n + 2) | finalizing | finalized => rfl

@[simp] theorem isComplete_settle (s : HeightState) : s.settle.isComplete = s.isComplete := by
  cases s <;> rfl

@[simp] theorem registerMany_eq_finalizing_iff {s : HeightState} {k : Nat} :
    s.registerMany k = finalizing ↔ s = finalizing := by
  cases s <;> simp [registerMany]

/-- A height is finalizing from its last report on. -/
theorem report_eq_finalizing_iff {s : HeightState} :
    s.report = finalizing ↔ s = finalizing ∨ s.isLast = true := by
  match s with
  | pending 0 | pending 1 | pending (n + 2) | finalizing | finalized => simp [report, isLast]

@[simp] theorem settle_ne_finalizing (s : HeightState) : s.settle ≠ finalizing := by
  cases s <;> simp [settle]

end HeightState

namespace Tracker

theorem state?_ofBounds (lo hi h : Nat) :
    (ofBounds lo hi).state? h = if lo ≤ h ∧ h ≤ hi then some (.pending 0) else none := by
  unfold ofBounds state?
  by_cases hlo : lo ≤ h
  · by_cases hhi : h ≤ hi
    · have : h - lo < hi + 1 - lo := by omega
      simp [hlo, hhi, this]
    · have : ¬ h - lo < hi + 1 - lo := by omega
      simp [hlo, hhi, this]
  · simp [hlo]

theorem state?_foldl_update (f : HeightState → HeightState) (t : Tracker) (n k h : Nat) :
    ((List.range' k n).foldl (fun t h => t.update h f) t).state? h =
      if k ≤ h ∧ h < k + n then (t.state? h).map f else t.state? h := by
  induction n generalizing t k with
  | zero => rw [if_neg (show ¬ (k ≤ h ∧ h < k + 0) by omega)]; rfl
  | succ n ih =>
      rw [List.range'_succ, List.foldl_cons, ih, state?_update]
      by_cases he : h = k
      · subst he
        rw [if_neg (show ¬ (h + 1 ≤ h ∧ h < h + 1 + n) by omega), if_pos rfl,
          if_pos (show h ≤ h ∧ h < h + (n + 1) by omega)]
      · rw [if_neg he]
        have hiff : (k + 1 ≤ h ∧ h < k + 1 + n) ↔ (k ≤ h ∧ h < k + (n + 1)) := by omega
        simp only [hiff]

theorem state?_register (t : Tracker) (lo hi h : Nat) :
    (t.register lo hi).state? h =
      if lo ≤ h ∧ h ≤ hi then (t.state? h).map .register else t.state? h := by
  rw [register, state?_foldl_update]
  by_cases hin : lo ≤ h ∧ h ≤ hi
  · simp [hin, show h < lo + (hi + 1 - lo) by omega]
  · simp [hin, show ¬ (lo ≤ h ∧ h < lo + (hi + 1 - lo)) by omega]

/-- Each height counts the tasks that cover it. -/
theorem state?_registerAll (tasks : List Task) (t : Tracker) (h : Nat) :
    (tasks.foldl (fun t task => t.register task.lo task.hi) t).state? h =
      (t.state? h).map (·.registerMany (tasks.countP (Task.covers h))) := by
  induction tasks generalizing t with
  | nil => simp
  | cons task tasks ih =>
      rw [List.foldl_cons, ih, state?_register, List.countP_cons]
      by_cases hin : task.lo ≤ h ∧ h ≤ task.hi
      · rw [if_pos hin, if_pos (Task.covers_iff.2 hin), Option.map_map]
        congr 1
        funext s
        exact HeightState.registerMany_register s _
      · rw [if_neg hin, if_neg (fun hc => hin (Task.covers_iff.1 hc)), Nat.add_zero]

theorem state?_report (t : Tracker) (k h : Nat) :
    (t.report k).state? h = if h = k then (t.state? h).map .report else t.state? h :=
  state?_update t k h .report

theorem state?_settle (t : Tracker) (k h : Nat) :
    (t.settle k).state? h = if h = k then (t.state? h).map .settle else t.state? h :=
  state?_update t k h .settle

theorem isLast_iff {t : Tracker} {h : Nat} :
    t.isLast h = true ↔ t.state? h = some (.pending 1) := by
  unfold isLast
  cases t.state? h with
  | none => simp
  | some s => simp [HeightState.isLast_iff]

theorem isComplete_iff {t : Tracker} {h : Nat} :
    t.isComplete h = true ↔ ∃ s, t.state? h = some s ∧ s.isComplete = true := by
  unfold isComplete
  cases t.state? h with
  | none => simp
  | some s => simp

/-- A height is as complete as before if what happens to its state changes nothing about that. -/
theorem isComplete_eq_of_map {t t' : Tracker} {h : Nat} {f : HeightState → HeightState}
    (hstate : t'.state? h = (t.state? h).map f) (hf : ∀ s, (f s).isComplete = s.isComplete) :
    t'.isComplete h = t.isComplete h := by
  unfold isComplete
  rw [hstate, Option.any_map]
  exact congrArg (Option.any · _) (funext hf)

theorem isComplete_report (t : Tracker) (k h : Nat) :
    (t.report k).isComplete h = (t.isComplete h || (h == k && t.isLast h)) := by
  unfold isComplete isLast
  rw [state?_report]
  by_cases he : h = k
  · cases t.state? h <;> simp [he, HeightState.isComplete_report]
  · simp [he]

theorem isComplete_settle (t : Tracker) (k h : Nat) :
    (t.settle k).isComplete h = t.isComplete h := by
  by_cases he : h = k
  · exact isComplete_eq_of_map (by rw [state?_settle, if_pos he]) HeightState.isComplete_settle
  · unfold isComplete
    rw [state?_settle, if_neg he]

end Tracker

/-! ### The bucket of a height -/

namespace Buckets

@[simp] theorem get_empty (h : Nat) : empty.get h = [] := by
  simp [empty, get]

theorem get_add (b : Buckets) (tx : Transaction) (h : Nat) :
    (b.add tx).get h =
      if tx.height? = some h ∧ b.accepts tx = true then b.get h ++ [tx] else b.get h := by
  unfold add
  cases hk : tx.height? with
  | none => simp
  | some k =>
      by_cases hacc : b.accepts tx = true
      · by_cases he : k = h
        · subst he
          simp [hacc, get]
        · simp [hacc, he, get, Std.ExtTreeMap.getElem?_insert]
      · simp [hacc]

theorem get_remove (b : Buckets) (k h : Nat) :
    (b.remove k).get h = if h = k then [] else b.get h := by
  unfold remove get
  by_cases he : k = h
  · subst he; simp
  · simp [Std.ExtTreeMap.getElem?_erase, he, show h ≠ k from fun e => he e.symm]

/-- Several transactions are added, one after the other. -/
abbrev addAll (b : Buckets) (txs : List Transaction) : Buckets := txs.foldl add b

theorem mem_get_addAll {b : Buckets} {txs : List Transaction} {h : Nat} {tx : Transaction}
    (hmem : tx ∈ (b.addAll txs).get h) : tx ∈ b.get h ∨ (tx ∈ txs ∧ tx.height? = some h) := by
  induction txs generalizing b with
  | nil => exact .inl hmem
  | cons x xs ih =>
      rcases ih hmem with hx | ⟨hx, hh⟩
      · rw [get_add] at hx
        split at hx
        · rename_i hc
          rcases List.mem_append.1 hx with hb | hone
          · exact .inl hb
          · obtain rfl := List.mem_singleton.1 hone
            exact .inr ⟨List.mem_cons_self, hc.1⟩
        · exact .inl hx
      · exact .inr ⟨List.mem_cons_of_mem _ hx, hh⟩

theorem mem_get_addAll_of_mem {b : Buckets} {h : Nat} {tx : Transaction} (hmem : tx ∈ b.get h)
    (txs : List Transaction) : tx ∈ (b.addAll txs).get h := by
  induction txs generalizing b with
  | nil => exact hmem
  | cons x xs ih =>
      apply ih
      rw [get_add]
      split
      · exact List.mem_append_left _ hmem
      · exact hmem

/-- After it is added, the bucket of its height holds its hash. -/
theorem exists_hash_mem_get_add (b : Buckets) {tx : Transaction} {h : Nat}
    (hh : tx.height? = some h) : ∃ y ∈ (b.add tx).get h, y.hash = tx.hash := by
  rw [get_add]
  by_cases hacc : b.accepts tx = true
  · exact ⟨tx, by simp [hh, hacc], rfl⟩
  · rw [if_neg (fun hc => hacc hc.2)]
    have hknown : (b.get h).any (·.hash == tx.hash) = true := by
      simpa [accepts, hh] using hacc
    obtain ⟨y, hy, he⟩ := List.any_eq_true.1 hknown
    exact ⟨y, hy, eq_of_beq he⟩

theorem exists_hash_mem_get_addAll {b : Buckets} {txs : List Transaction} {h : Nat}
    {tx : Transaction} (hmem : tx ∈ txs) (hh : tx.height? = some h) :
    ∃ y ∈ (b.addAll txs).get h, y.hash = tx.hash := by
  induction txs generalizing b with
  | nil => cases hmem
  | cons x xs ih =>
      rcases List.mem_cons.1 hmem with rfl | hxs
      · obtain ⟨y, hy, he⟩ := exists_hash_mem_get_add b hh
        exact ⟨y, mem_get_addAll_of_mem hy xs, he⟩
      · exact ih hxs

theorem nodup_get_add {b : Buckets} {h : Nat} (hb : ((b.get h).map (·.hash)).Nodup)
    (tx : Transaction) : (((b.add tx).get h).map (·.hash)).Nodup := by
  rw [get_add]
  split
  · rename_i hc
    have hnew : ∀ y ∈ b.get h, y.hash ≠ tx.hash := by
      simpa [accepts, hc.1] using hc.2
    rw [List.map_append, List.nodup_append]
    refine ⟨hb, by simp, fun x hx y hy => ?_⟩
    obtain ⟨z, hz, rfl⟩ := List.mem_map.1 hx
    obtain rfl : y = tx.hash := by simpa using hy
    exact hnew z hz
  · exact hb

/-- Every bucket keeps each hash once. -/
theorem nodup_get_addAll {b : Buckets} {h : Nat} (hb : ((b.get h).map (·.hash)).Nodup)
    (txs : List Transaction) : (((b.addAll txs).get h).map (·.hash)).Nodup := by
  induction txs generalizing b with
  | nil => exact hb
  | cons x xs ih => exact ih (nodup_get_add hb x)

end Buckets
end WatchWallet
