import WatchWallet.Schedule
import WatchWallet.Window.Task

/-!
# Window — Cost

A bound on the number of requests that a task leads to.  Whatever the explorer answers, the tasks
that follow from an answer together cost less than the task it answers: a continuation starts above
the start of its task, and a next gap batch has fewer addresses of the chain after it.
-/

namespace WatchWallet

/-! ### The heights of a finding -/

namespace Answer

theorem foldl_lowest_le (bs : List Block) (b : Block) :
    (bs.foldl (fun low b => if b.height < low.height then b else low) b).height ≤ b.height := by
  induction bs generalizing b with
  | nil => exact UInt32.le_refl _
  | cons c cs ih =>
    simp only [List.foldl_cons]
    split
    · rename_i h
      exact UInt32.le_trans (ih c) (UInt32.le_of_lt h)
    · exact ih b

theorem le_foldl_highest (bs : List Block) (b : Block) :
    b.height ≤ (bs.foldl (fun high b => if b.height < high.height then high else b) b).height := by
  induction bs generalizing b with
  | nil => exact UInt32.le_refl _
  | cons c cs ih =>
    simp only [List.foldl_cons]
    split
    · exact ih b
    · rename_i h
      exact UInt32.le_trans (UInt32.not_lt.1 h) (ih c)

theorem lowest?_eq_none_iff {a : Answer} : a.lowest? = none ↔ a.blocks = [] := by
  unfold lowest?
  cases a.blocks <;> simp

theorem highest?_eq_none_iff {a : Answer} : a.highest? = none ↔ a.blocks = [] := by
  unfold highest?
  cases a.blocks <;> simp

/-- The lowest block is not above the highest. -/
theorem lowest_le_highest {a : Answer} {low high : Block} (hlow : a.lowest? = some low)
    (hhigh : a.highest? = some high) : low.height.toNat ≤ high.height.toNat := by
  unfold lowest? at hlow
  unfold highest? at hhigh
  split at hlow
  · simp at hlow
  · rename_i b bs hb
    simp only [hb, Option.some.injEq] at hlow hhigh
    subst hlow hhigh
    exact UInt32.le_iff_toNat_le.1
      (UInt32.le_trans (foldl_lowest_le bs b) (le_foldl_highest bs b))

end Answer

namespace Task

/-- Nothing is found in an answer that confirms nothing, whether it is cut or not. -/
theorem judge_eq_quiet_iff {t : Task} {a : Answer} : t.judge a = .ok .quiet ↔ a.blocks = [] := by
  unfold judge
  cases hlow : a.lowest? with
  | none => simp [Answer.lowest?_eq_none_iff.1 hlow]
  | some low =>
    have hne : a.blocks ≠ [] := by simp [← Answer.lowest?_eq_none_iff, hlow]
    cases hhigh : a.highest? with
    | none => exact absurd (Answer.highest?_eq_none_iff.1 hhigh) hne
    | some high =>
      dsimp only
      split
      · simp [hne]
      · split
        · split <;> simp [hne]
        · simp [hne]

/-- What is found lies at the start of the task or above.  A cut answer is taken for complete below its
highest block, which lies above the start. -/
theorem judge_eq_active_iff {t : Task} {a : Answer} {low high : Block} {lastFull : Nat} :
    t.judge a = .ok (.active low high lastFull) ↔
      a.lowest? = some low ∧ a.highest? = some high ∧ t.lo ≤ low.height.toNat ∧
        (a.truncated = false ∧ lastFull = t.hi ∨
          a.truncated = true ∧ high.height.toNat ≠ t.lo ∧ lastFull = high.height.toNat - 1) := by
  unfold judge
  cases hlow : a.lowest? with
  | none => simp
  | some low' =>
    cases hhigh : a.highest? with
    | none => simp
    | some high' =>
      dsimp only
      split
      · rename_i hbelow
        simp only [reduceCtorEq, Option.some.injEq, false_iff, not_and]
        rintro rfl - hle
        omega
      · split
        · split
          · rename_i hsingle
            simp only [reduceCtorEq, Option.some.injEq, false_iff, not_and]
            rintro rfl rfl
            simp_all
          · simp only [Except.ok.injEq, Finding.active.injEq, Option.some.injEq]
            constructor
            · rintro ⟨rfl, rfl, rfl⟩
              exact ⟨rfl, rfl, by omega, .inr ⟨‹_›, ‹_›, rfl⟩⟩
            · rintro ⟨rfl, rfl, -, ⟨hwhole, -⟩ | ⟨-, -, rfl⟩⟩
              · simp_all
              · exact ⟨rfl, rfl, rfl⟩
        · simp only [Except.ok.injEq, Finding.active.injEq, Option.some.injEq]
          constructor
          · rintro ⟨rfl, rfl, rfl⟩
            exact ⟨rfl, rfl, by omega, .inl ⟨Bool.eq_false_iff.2 ‹_›, rfl⟩⟩
          · rintro ⟨rfl, rfl, -, ⟨-, rfl⟩ | ⟨hcut, -⟩⟩
            · exact ⟨rfl, rfl, rfl⟩
            · exact absurd hcut ‹_›

/-- A finding starts at the start of its task or above, and the heights that are completely known
reach at least that far. -/
theorem le_of_judge {t : Task} {a : Answer} {low high : Block} {lastFull : Nat}
    (h : t.judge a = .ok (.active low high lastFull)) :
    t.lo ≤ low.height.toNat ∧ (t.lo ≤ lastFull ∨ t.hi ≤ lastFull) := by
  obtain ⟨hlow, hhigh, hle, hlast⟩ := judge_eq_active_iff.1 h
  have := Answer.lowest_le_highest hlow hhigh
  omega

/-! ### The bound -/

/-- The number of addresses of a chain after those of a batch. -/
def addressesAfter (p : Plan) (t : Task) : Nat :=
  (p.addresses t.chain).length - (t.batch.last + 1)

/-- A bound on the number of requests that a task leads to, itself included. -/
def cost (p : Plan) (t : Task) : Nat :=
  let heights := t.hi + 1 - t.lo
  match t.batch.kind with
  | .regular => 2 * heights + 1
  | .gap => 2 * (t.addressesAfter p + 1) * heights + 1

theorem cost_nextGap_le {p : Plan} {t : Task} {low : Block} (hlow : t.lo ≤ low.height.toNat)
    (hlive : (t.nextGap p low).isLive) :
    (t.nextGap p low).cost p ≤ 2 * t.addressesAfter p * (t.hi + 1 - t.lo) + 1 := by
  have hafter : (t.nextGap p low).addressesAfter p + 1 ≤ t.addressesAfter p := by
    simp only [isLive, nextGap, Batch.nextGap, Batch.derive, Batch.isEmpty, Bool.and_eq_true,
      Bool.not_eq_true', List.isEmpty_eq_false_iff, ne_eq, List.take_eq_nil_iff,
      List.drop_eq_nil_iff, not_or] at hlive
    simp only [addressesAfter, nextGap, Batch.nextGap, Batch.derive]
    omega
  have hheights : t.hi + 1 - low.height.toNat ≤ t.hi + 1 - t.lo := by omega
  have hcost : (t.nextGap p low).cost p =
      2 * ((t.nextGap p low).addressesAfter p + 1) * (t.hi + 1 - low.height.toNat) + 1 := rfl
  rw [hcost]
  exact Nat.succ_le_succ (Nat.mul_le_mul (Nat.mul_le_mul_left 2 hafter) hheights)

theorem cost_continuation_lt {p : Plan} {t : Task} {high : Block} {lastFull : Nat}
    (hfull : t.lo ≤ lastFull) (hlt : lastFull < t.hi) :
    (t.continuation high lastFull).cost p < 2 * (t.hi + 1 - t.lo) := by
  have hcost : (t.continuation high lastFull).cost p = 2 * (t.hi + 1 - (lastFull + 1)) + 1 := rfl
  omega

theorem cost_pos (p : Plan) (t : Task) : 0 < t.cost p := by
  unfold cost
  dsimp only
  split <;> exact Nat.succ_pos _

/-- The tasks that follow from an answer cost less than the task it answers. -/
theorem cost_children_lt {p : Plan} {t : Task} {a : Answer} {f : Finding}
    (h : t.judge a = .ok f) : Schedule.costOf (cost p) (t.children p f) < t.cost p := by
  match f with
  | .quiet => exact cost_pos p t
  | .active low high lastFull =>
    obtain ⟨hlow, hfull⟩ := le_of_judge h
    have hrest : Schedule.costOf (cost p)
        ((if lastFull < t.hi then [t.continuation high lastFull] else []).filter isLive) ≤
        2 * (t.hi + 1 - t.lo) - 1 := by
      refine Nat.le_trans (Schedule.costOf_filter_le (cost p) isLive _) ?_
      split
      · rename_i hlt
        have := @cost_continuation_lt p t high lastFull (by omega) hlt
        simp only [Schedule.costOf]
        omega
      · exact Nat.zero_le _
    simp only [children, List.filter_append, Schedule.costOf_append]
    cases hkind : t.batch.kind with
    | regular =>
      simp only [Batch.isGap, hkind, cost, reduceCtorEq, decide_false, Bool.false_eq_true, if_false,
        List.filter_nil, Schedule.costOf]
      omega
    | gap =>
      simp only [Batch.isGap, hkind, cost, decide_true, if_true]
      have hexpand : 2 * (t.addressesAfter p + 1) * (t.hi + 1 - t.lo) =
          2 * t.addressesAfter p * (t.hi + 1 - t.lo) + 2 * (t.hi + 1 - t.lo) := by
        rw [Nat.mul_add, Nat.add_mul, Nat.mul_one]
      by_cases hlive : (t.nextGap p low).isLive
      · have hgap := cost_nextGap_le hlow hlive
        have hheights : low.height.toNat ≤ t.hi := by
          simp only [isLive, Bool.and_eq_true, decide_eq_true_eq] at hlive
          exact hlive.2
        simp only [List.filter_cons, hlive, if_true, List.filter_nil, Schedule.costOf]
        omega
      · simp only [List.filter_cons, hlive, if_false, List.filter_nil, Schedule.costOf,
          Bool.false_eq_true]
        omega

end Task
end WatchWallet
