import WatchWallet.Proofs.Account.Convergence
import WatchWallet.Proofs.Account.Course

/-!
# Account — Overlap

The stable and the unstable store, after passes with any explorers (`Account.overlap_of_course`).  They
hold no height in common as long as the tip does not go back.  When it does, what was stored as stable
stays, and the unstable window may reach below it (`Account.overlap_of_course_shorterChain`); and a pass
that knows no unstable window leaves in the unstable store whatever is there.
-/

namespace WatchWallet
open WatchWallet.Action (twoAddressAccount)
open Window (paymentBlock threeBlocks)

/-- A pass that succeeds was told the tip, and leaves recent blocks in the unstable store. -/
theorem Pass.told_of_ok (p : Pass) {stats : SyncStats} (hok : p.outcome = .ok stats) :
    p.tip? = some stats.tip ∧ (p.depth ≠ 0 → p.after.Recent stats.tip p.depth) := by
  cases p.effect with
  | unanswered _ hfail _ =>
      obtain ⟨e, he⟩ := hfail
      cases he.symm.trans hok
  | answered htip _ _ _ hstats =>
      obtain ⟨-, rfl, hrecent⟩ := hstats stats hok
      exact ⟨htip, hrecent⟩

/-- A pass stores nothing as stable above its stable heights. -/
theorem Pass.held_of_lt (p : Pass) {tip x : Nat} (htip : p.tip? = some tip)
    (hne : p.after.stable.blocks.at? x ≠ none) (hlt : tip < x + p.depth) :
    p.account.stable.blocks.at? x ≠ none := by
  rcases p.at?_stable hne with hold | ⟨t, ht, hle⟩
  · exact hold
  · obtain rfl : tip = t := Option.some.inj (htip.symm.trans ht)
    exact absurd hle (Nat.not_le.2 hlt)

/-- Without an unstable window a pass does not touch the unstable store. -/
theorem Pass.unstable_after (p : Pass) (hdepth : p.depth = 0) :
    p.after.unstable = p.account.unstable := by
  cases p.effect with
  | unanswered _ _ hrest => exact hrest.idle hdepth
  | answered _ hphase hrest _ _ => exact (hrest.idle hdepth).trans hphase.frame.2.1

namespace Account

variable {start a : Account} {ps : List Pass}

theorem Course.unstable (h : Course start ps a) (hdepth : start.config.unstableDepth.toNat = 0) :
    a.unstable = start.unstable := by
  induction h with
  | start => rfl
  | @pass ps a h p hp ih =>
      refine (p.unstable_after ?_).trans (hp ▸ ih)
      rwa [Pass.depth, hp, h.config]

/-- **Where the stores overlap.**  Let a pass succeed after any others.  The unstable store holds
heights of the unstable window only, but if there is none, it is as it was at the start.  Where the stable
store reaches into the unstable window, the block was there before the pass: it was stored when the tip was
higher, or at the start.  So the stores of an account that starts with nothing hold no height in common
until the tip goes back. -/
theorem overlap_of_course (h : Course start ps a) {p : Pass} (hp : p.account = a) {stats : SyncStats}
    (hok : p.outcome = .ok stats) :
    let depth := start.config.unstableDepth.toNat
    (depth ≠ 0 → ∀ x, p.after.unstable.blocks.at? x ≠ none → stats.tip < x + depth ∧ x ≤ stats.tip) ∧
      (depth = 0 → p.after.unstable = start.unstable) ∧
      (∀ x, p.after.stable.blocks.at? x ≠ none → stats.tip < x + depth →
        a.stable.blocks.at? x ≠ none ∧
          (start.stable.blocks.at? x ≠ none ∨
            ∃ q ∈ ps, ∃ t, q.tip? = some t ∧ x + depth ≤ t ∧ stats.tip < t)) ∧
      ((∀ x, start.stable.blocks.at? x = none) →
        (depth = 0 → ∀ x, start.unstable.blocks.at? x = none) →
        (∀ q ∈ ps, ∀ t, q.tip? = some t → t ≤ stats.tip) →
        ∀ x, p.after.stable.blocks.at? x = none ∨ p.after.unstable.blocks.at? x = none) := by
  intro depth
  have hdepth : p.depth = depth := by rw [Pass.depth, hp, h.config]
  have hafter : Course start (ps ++ [p]) p.after := h.pass hp
  obtain ⟨htip, hrecent⟩ := p.told_of_ok hok
  have hheld : ∀ x, p.after.stable.blocks.at? x ≠ none → stats.tip < x + depth →
      a.stable.blocks.at? x ≠ none := fun x hne hlt => hp ▸ p.held_of_lt htip hne (hdepth ▸ hlt)
  rw [hdepth] at hrecent
  have hseen : ∀ x, p.after.stable.blocks.at? x ≠ none → stats.tip < x + depth →
      start.stable.blocks.at? x ≠ none ∨
        ∃ q ∈ ps, ∃ t, q.tip? = some t ∧ x + depth ≤ t ∧ stats.tip < t := by
    intro x hne hlt
    rcases h.at?_stable (hheld x hne hlt) with hstart | ⟨q, hq, t, ht, hle⟩
    · exact .inl hstart
    · exact .inr ⟨q, hq, t, ht, hle, Nat.lt_of_lt_of_le hlt hle⟩
  refine ⟨hrecent, hafter.unstable, fun x hne hlt => ⟨hheld x hne hlt, hseen x hne hlt⟩, ?_⟩
  intro hstable hunstable hrises x
  by_contra hboth
  obtain ⟨hne, hne'⟩ := not_or.1 hboth
  rcases Nat.eq_zero_or_pos depth with hzero | hpos
  · exact hne' ((congrArg (·.blocks.at? x) (hafter.unstable hzero)).trans (hunstable hzero x))
  · have hlt := (hrecent (Nat.pos_iff_ne_zero.1 hpos) x hne').1
    rcases hseen x hne hlt with hstart | ⟨q, hq, t, ht, -, hhigher⟩
    · exact hstart (hstable x)
    · exact Nat.not_le.2 hhigher (hrises q hq t ht)

/-- Two of the three blocks. -/
def shorterChain : Blockchain where
  blocks := threeBlocks.blocks.take 2
  heights := by decide
  nodup_hashes := by decide
  block_eq := by decide
  nodup_transactions := by decide

/-- The first pass stores the second block as stable, under the third one.  The next one is told a chain
that ends with it: the block is found again, as an unstable one. -/
theorem overlap_of_course_shorterChain :
    let p : Pass := ⟨Unit, threeBlocks.explorer 2, (), .epoch, twoAddressAccount⟩
    let q : Pass := ⟨Unit, shorterChain.explorer 2, (), .epoch, p.after⟩
    q.outcome.isOk = true ∧
      q.after.stable.blocks.at? 1 ≠ none ∧ q.after.unstable.blocks.at? 1 ≠ none ∧
      ∃ t, p.tip? = some t ∧ 1 < t := by
  intro p q
  have hp : Course twoAddressAccount [p] p.after := .pass .start rfl
  obtain ⟨hok, hstable, hunstable⟩ : q.outcome.toOption.map SyncStats.tip = some 1 ∧
      (q.after.stable.blocks.at? 1).isSome = true ∧ (q.after.unstable.blocks.at? 1).isSome = true := by
    decide +kernel
  rcases hstats : q.outcome with failure | stats
  · rw [hstats] at hok
    cases hok
  have htip : stats.tip = 1 := Option.some.inj (hstats ▸ hok :)
  obtain ⟨-, -, hseen, -⟩ := overlap_of_course hp (p := q) rfl hstats
  have hstable := Option.isSome_iff_ne_none.1 hstable
  obtain ⟨-, hstart | ⟨q', hq', t, ht, -, hlt⟩⟩ := hseen 1 hstable (htip ▸ Nat.lt_succ_self 1)
  · exact absurd rfl hstart
  · obtain rfl := List.mem_singleton.1 hq'
    exact ⟨rfl, hstable, Option.isSome_iff_ne_none.1 hunstable, t, ht, htip ▸ hlt⟩

end Account
end WatchWallet
