import WatchWallet.Proofs.Window.Packed

/-!
# Window — Winner

Which report completes a height, told from the calls alone.  A registration on the height counts, and so
does a report while a registration is without one; the height is won by the call that brings the
difference from one to zero, and only a report can do so (`Tracker.takesLast_iff`).  Along a history the
state of a height is this difference until the height is won, and complete from then on (`Tracker.Told`,
one step in `Told.concat`); so one report at most tells that the height is complete
(`PackedTracker.one_winner`).
-/

namespace WatchWallet

namespace Tracker

open HeightState (pending finalizing finalized)

/-! ### Counting calls -/

/-- The batches registered on a height, and the reports on it that counted. -/
structure Tally where
  registered : Nat
  effective : Nat

/-- A registration on the height counts; a report counts if one of them is still without a report. -/
def Tally.count (h : UInt32) (n : Tally) : Call → Tally
  | .register lo hi => if lo ≤ h ∧ h ≤ hi then ⟨n.registered + 1, n.effective⟩ else n
  | .report k => if h = k ∧ n.effective < n.registered then ⟨n.registered, n.effective + 1⟩ else n
  | .settle _ => n

def tally (calls : List Call) (h : UInt32) : Tally := calls.foldl (Tally.count h) ⟨0, 0⟩

/-- The registrations on a height that are without a report. -/
def outstanding (calls : List Call) (h : UInt32) : Nat :=
  (tally calls h).registered - (tally calls h).effective

/-- After these calls, the next one takes the last batch off a height. -/
def TakesLast (calls : List Call) (c : Call) (h : UInt32) : Prop :=
  outstanding calls h = 1 ∧ outstanding (calls ++ [c]) h = 0

/-- One of the calls has taken the last batch off a height. -/
def Won (calls : List Call) (h : UInt32) : Prop :=
  ∃ before c after, calls = before ++ c :: after ∧ TakesLast before c h

/-- What a call that is about a height does to the number of batches. -/
def Call.shift : Call → Nat → Nat
  | register _ _, n => n + 1
  | report _, n => n - 1
  | settle _, n => n

variable {calls : List Call} {c : Call} {h : UInt32}

theorem tally_concat (calls : List Call) (c : Call) (h : UInt32) :
    tally (calls ++ [c]) h = (tally calls h).count h c := by
  rw [tally, List.foldl_append]
  rfl

theorem effective_le (calls : List Call) (h : UInt32) :
    (tally calls h).effective ≤ (tally calls h).registered := by
  induction calls using List.reverseRecOn with
  | nil => exact Nat.le_refl _
  | append_singleton calls c ih =>
      rw [tally_concat]
      cases c with
      | register lo hi =>
          rw [Tally.count]
          split
          · exact Nat.le_succ_of_le ih
          · exact ih
      | report k =>
          rw [Tally.count]
          split
          · rename_i hlt
            exact hlt.2
          · exact ih
      | settle k => exact ih

theorem outstanding_concat (calls : List Call) (c : Call) (h : UInt32) :
    outstanding (calls ++ [c]) h =
      if c.touches h = true then c.shift (outstanding calls h) else outstanding calls h := by
  have hle := effective_le calls h
  unfold outstanding
  rw [tally_concat]
  cases c with
  | register lo hi =>
      simp only [Tally.count, Call.touches, Call.shift, Bool.and_eq_true, decide_eq_true_eq]
      split
      · exact Nat.sub_add_comm hle
      · rfl
  | report k =>
      simp only [Tally.count, Call.touches, Call.shift, decide_eq_true_eq]
      by_cases hk : h = k
      · subst hk
        simp only [true_and, if_true]
        split
        · exact Nat.sub_succ ..
        · omega
      · simp only [hk, false_and, if_false]
  | settle k => simp only [Tally.count, Call.shift, ite_self]

/-- Only a report takes the last batch off a height. -/
theorem takesLast_iff : TakesLast calls c h ↔ c = .report h ∧ outstanding calls h = 1 := by
  unfold TakesLast
  rw [outstanding_concat]
  constructor
  · rintro ⟨hone, hzero⟩
    split at hzero
    · rename_i htouch
      cases c with
      | report k => exact ⟨congrArg Call.report (of_decide_eq_true htouch).symm, hone⟩
      | register lo hi | settle k =>
          simp only [Call.shift] at hzero
          omega
    · omega
  · rintro ⟨rfl, hone⟩
    rw [if_pos (Call.touches_report h), Call.shift, hone]
    exact ⟨rfl, rfl⟩

theorem not_won_nil : ¬ Won [] h := by
  rintro ⟨before, c, after, heq, -⟩
  exact List.append_ne_nil_of_right_ne_nil _ (List.cons_ne_nil _ _) heq.symm

theorem won_concat : Won (calls ++ [c]) h ↔ Won calls h ∨ TakesLast calls c h := by
  constructor
  · rintro ⟨before, c', after, heq, hlast⟩
    rcases List.eq_nil_or_concat after with rfl | ⟨after', c'', rfl⟩
    · obtain ⟨rfl, hc⟩ := List.append_inj' heq rfl
      cases hc
      exact .inr hlast
    · rw [List.concat_eq_append, ← List.cons_append, ← List.append_assoc] at heq
      obtain ⟨rfl, -⟩ := List.append_inj' heq rfl
      exact .inl ⟨before, c', after', rfl, hlast⟩
  · rintro (⟨before, c', after, rfl, hlast⟩ | hlast)
    · exact ⟨before, c', after ++ [c], by simp, hlast⟩
    · exact ⟨calls, c, [], rfl, hlast⟩

/-- A height is won for the first time only once. -/
theorem eq_of_takesLast {before before' after after' : List Call} {c c' : Call}
    (heq : before ++ c :: after = before' ++ c' :: after')
    (hfirst : ¬ Won before h) (hlast : TakesLast before c h)
    (hfirst' : ¬ Won before' h) (hlast' : TakesLast before' c' h) : before = before' := by
  have hlater : ∀ {x y z : List Call} {d : Call}, TakesLast x d h → x ++ d :: y = z → Won z h :=
    fun hd he => ⟨_, _, _, he.symm, hd⟩
  rcases List.append_eq_append_iff.1 heq with ⟨rest, hbefore, hrest⟩ | ⟨rest, hbefore, hrest⟩
  · cases rest with
    | nil => simpa using hbefore.symm
    | cons d rest => cases hrest; exact absurd (hlater hlast hbefore.symm) hfirst'
  · cases rest with
    | nil => simpa using hbefore
    | cons d rest => cases hrest; exact absurd (hlater hlast' hbefore.symm) hfirst

/-! ### The state of a height -/

/-- The state that the calls alone tell of a height: a count until its last batch is taken off, and from
then on whether its block has come to the store. -/
structure Told (calls : List Call) (h : UInt32) (s : HeightState) : Prop where
  pending : ¬ Won calls h → s = pending (outstanding calls h)
  complete : Won calls h → ∃ before after, calls = before ++ .report h :: after ∧
    ¬ Won before h ∧ TakesLast before (.report h) h ∧
    s = if .settle h ∈ after then finalized else finalizing

theorem told_nil : Told [] h (HeightState.pending 0) :=
  ⟨fun _ => rfl, fun hwon => absurd hwon not_won_nil⟩

theorem Told.concat {s : HeightState} (hs : Told calls h s) (c : Call) :
    Told (calls ++ [c]) h (if c.touches h = true then c.act s else s) := by
  -- a height that is won stays so, and another one is won by this call if it takes the last task
  by_cases hwon : Won calls h
  · obtain ⟨before, after, rfl, hfirst, hlast, rfl⟩ := hs.complete hwon
    refine ⟨fun hnot => absurd (won_concat.2 (.inl hwon)) hnot, fun _ => ?_⟩
    refine ⟨before, after ++ [c], by simp, hfirst, hlast, ?_⟩
    by_cases htouch : c.touches h = true
    · rw [if_pos htouch, Call.act_of_isComplete (by split <;> rfl) htouch]
      by_cases hc : c = .settle h <;> simp [hc, eq_comm]
    · have hc : .settle h ≠ c := by
        rintro rfl
        exact htouch (Call.touches_settle h)
      simp [htouch, hc]
  · obtain rfl := hs.pending hwon
    by_cases hlast : TakesLast calls c h
    · obtain ⟨rfl, hone⟩ := takesLast_iff.1 hlast
      refine ⟨fun hnot => absurd (won_concat.2 (.inr hlast)) hnot,
        fun _ => ⟨calls, [], rfl, hwon, hlast, ?_⟩⟩
      rw [if_pos (Call.touches_report h), hone]
      rfl
    · refine ⟨fun _ => ?_, fun hwon' => absurd (won_concat.1 hwon') (not_or.2 ⟨hwon, hlast⟩)⟩
      rw [outstanding_concat]
      split
      · rename_i htouch
        cases c with
        | register lo hi | settle k => rfl
        | report k =>
            obtain rfl : h = k := of_decide_eq_true htouch
            have hne : outstanding calls h ≠ 1 := fun hone => hlast (takesLast_iff.2 ⟨rfl, hone⟩)
            generalize outstanding calls h = n at hne ⊢
            obtain _ | _ | n := n
            · rfl
            · exact absurd rfl hne
            · rfl
      · rfl

theorem Told.isLast_iff {s : HeightState} (hs : Told calls h s) :
    s.isLast = true ↔ ¬ Won calls h ∧ outstanding calls h = 1 := by
  by_cases hwon : Won calls h
  · obtain ⟨before, after, -, -, -, rfl⟩ := hs.complete hwon
    refine iff_of_false ?_ fun hnot => hnot.1 hwon
    split <;> exact Bool.false_ne_true
  · rw [hs.pending hwon, HeightState.isLast_iff, HeightState.pending.injEq]
    exact (and_iff_right hwon).symm

theorem told_after {lo hi : Nat} (hin : lo ≤ h.toNat ∧ h.toNat ≤ hi) (calls : List Call) :
    ∃ s, ((ofBounds lo hi).after calls).state? h.toNat = some s ∧ Told calls h s := by
  induction calls using List.reverseRecOn with
  | nil => exact ⟨_, by rw [after, List.foldl_nil, state?_ofBounds, if_pos hin], told_nil⟩
  | append_singleton calls c ih =>
      obtain ⟨s, hs, htold⟩ := ih
      refine ⟨_, ?_, htold.concat c⟩
      rw [after_concat, state?_perform, hs]
      split <;> rfl

end Tracker

namespace PackedTracker

open Tracker (Call Won TakesLast Told outstanding)

/-- Whether a call is a report on a height that tells it is complete. -/
def wins (t : PackedTracker) (h : UInt32) : Call → Bool
  | .report k => h = k && (t.report k).1
  | .register _ _ | .settle _ => false

/-- The state of a height of the window, and the only call that may have told that it is complete. -/
structure OneWinner (lo hi : UInt32) (calls : List Call) (h : UInt32) : Prop where
  told : ∃ s, ((ofBounds lo hi).after calls).state? h = some s ∧ Told calls h s
  wins_iff : ∀ {before c after}, calls = before ++ c :: after →
    (((ofBounds lo hi).after before).wins h c = true ↔ ¬ Won before h ∧ TakesLast before c h)
  once : ∀ {before c after before' c' after'}, calls = before ++ c :: after →
    calls = before' ++ c' :: after' → ((ofBounds lo hi).after before).wins h c = true →
    ((ofBounds lo hi).after before').wins h c' = true → before = before'

variable {calls : List Call} {h : UInt32} {lo hi : UInt32}

theorem told_after (hin : lo ≤ h ∧ h ≤ hi) (hfew : calls.countP Call.isRegister < UInt64.size - 2) :
    ∃ s, ((ofBounds lo hi).after calls).state? h = some s ∧ Told calls h s := by
  rw [state?_eq, unpack_after lo hi hfew]
  exact Tracker.told_after (by simpa only [UInt32.le_iff_toNat_le] using hin) calls

theorem wins_iff (hin : lo ≤ h ∧ h ≤ hi) (hfew : calls.countP Call.isRegister < UInt64.size - 2)
    {c : Call} : ((ofBounds lo hi).after calls).wins h c = true ↔ ¬ Won calls h ∧ TakesLast calls c h := by
  rw [Tracker.takesLast_iff]
  cases c with
  | register _ _ | settle _ => exact iff_of_false Bool.false_ne_true fun hlast => nomatch hlast.2.1
  | report k =>
      rw [wins, Bool.and_eq_true, decide_eq_true_eq, Call.report.injEq, eq_comm (a := k)]
      obtain ⟨s, hs, htold⟩ := told_after hin hfew
      rw [and_left_comm, ← htold.isLast_iff]
      refine and_congr_right fun hk => ?_
      subst hk
      rw [fst_report, Tracker.isLast, ← state?_eq, hs, Option.any_some]

/-- **One winner per height.**  As long as a word can count the batches that go out, a tracker of words is
one that counts without bound, and for each height of the window: the state is a count of the batches that
are without a report until one report takes off the last one; this report alone tells that the height is
complete; and later the block comes to the store.  There is nothing outside the window.  In any state of the
words, a report on a height that counts no batch changes nothing, a complete height stays as it is until its
block comes to the store, a call changes only the heights that it is about, and one that is about no height
of the window changes nothing. -/
theorem one_winner (lo hi : UInt32) {calls : List Call}
    (hfew : calls.countP Call.isRegister < UInt64.size - 2) :
    let t := (ofBounds lo hi).after calls
    t.unpack = (Tracker.ofBounds lo.toNat hi.toNat).after calls ∧
    (∀ h, lo ≤ h → h ≤ hi → OneWinner lo hi calls h) ∧
    (∀ h, ¬ (lo ≤ h ∧ h ≤ hi) → t.state? h = none ∧ ∀ c, t.wins h c = false) ∧
    ∀ (t' : PackedTracker) (c : Call),
      (∀ h, t'.state? h = some (.pending 0) → t'.report h = (false, t')) ∧
      (∀ h, t'.isComplete h = true →
        (t'.perform c).state? h = if c = .settle h then some .finalized else t'.state? h) ∧
      (∀ h, c.touches h = false → (t'.perform c).word? h = t'.word? h) ∧
      ((∀ h, c.touches h = true → t'.word? h = none) → t'.perform c = t') := by
  have hbefore : ∀ {before c after}, calls = before ++ c :: after →
      before.countP Call.isRegister < UInt64.size - 2 := by
    rintro before c after rfl
    rw [List.countP_append] at hfew
    omega
  refine ⟨unpack_after lo hi hfew, fun h hlo hhi => ⟨told_after ⟨hlo, hhi⟩ hfew, fun hcalls => ?_,
    fun hcalls hcalls' hwins hwins' => ?_⟩, fun h hout => ?_, fun t c =>
    ⟨fun h => report_of_pending_zero, fun h hc => ?_, fun h hnot => ?_, perform_of_outside⟩⟩
  · exact wins_iff ⟨hlo, hhi⟩ (hbefore hcalls)
  · obtain ⟨hfirst, hlast⟩ := (wins_iff ⟨hlo, hhi⟩ (hbefore hcalls)).1 hwins
    obtain ⟨hfirst', hlast'⟩ := (wins_iff ⟨hlo, hhi⟩ (hbefore hcalls')).1 hwins'
    exact Tracker.eq_of_takesLast (hcalls.symm.trans hcalls') hfirst hlast hfirst' hlast'
  · have hnone : ((ofBounds lo hi).after calls).word? h = none :=
      word?_after_of_eq_none (by rw [word?_ofBounds, if_neg hout]) calls
    refine ⟨by rw [state?, hnone, Option.map_none], fun c => ?_⟩
    cases c with
    | register _ _ | settle _ => rfl
    | report k =>
        rw [wins, Bool.and_eq_false_imp]
        intro hk
        rw [← of_decide_eq_true hk, report, hnone]
        rfl
  · exact state?_perform_of_isComplete hc c
  · rw [word?_perform, hnot, if_neg Bool.false_ne_true]

/-- Ranges that are inverted, overlap and reach beyond the window. -/
theorem one_winner_threeHeights :
    let calls : List Call := [.register 5 10, .register 11 10, .register 10 20, .report 10, .report 10,
      .report 11, .report 11, .report 3, .settle 11, .register 10 11]
    let t := (ofBounds 10 12).after calls
    t.unpack = (Tracker.ofBounds 10 12).after calls ∧
      (OneWinner 10 12 calls 10 ∧ t.state? 10 = some .finalizing) ∧
      (OneWinner 10 12 calls 11 ∧ t.state? 11 = some .finalized) ∧
      (OneWinner 10 12 calls 12 ∧ t.state? 12 = some (.pending 1)) ∧ t.state? 13 = none := by
  intro calls t
  obtain ⟨hunpack, hwinner, hout, -⟩ := one_winner 10 12 (show calls.countP Call.isRegister < _ by decide)
  exact ⟨hunpack, ⟨hwinner 10 (by decide) (by decide), by decide⟩,
    ⟨hwinner 11 (by decide) (by decide), by decide⟩, ⟨hwinner 12 (by decide) (by decide), by decide⟩,
    (hout 13 (by decide)).1⟩

end PackedTracker
end WatchWallet
