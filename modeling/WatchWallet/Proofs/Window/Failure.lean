import Mathlib.Data.List.Permutation
import WatchWallet.Proofs.Window.Completeness
import WatchWallet.Proofs.Window.Exchanges

/-!
# Window — Failure

What a window keeps when a request fails, or its answer is rejected.  Everything else that the
explorer says is honest.  A reply that cannot be taken in changes nothing, so the run goes the way of
a run with an honest explorer (`Run.steps_of_lapses`), and wherever it stops, the blocks handed over
are final: they hold everything at their heights, and below them no height is missing
(`Run.failure_keeps_final`).
-/

namespace WatchWallet

open Window (threeBlocks paymentBlock)

/-- Every task that starts at the height rejects the answer. -/
def Answer.Rejected (a : Answer) (h : Nat) : Prop :=
  ∀ t : Task, t.lo = h → ∃ v, t.judge a = .error v

/-- The answers of an honest explorer, and others that are rejected.  To a request from no known block
it may say anything. -/
def Blockchain.lapses (c : Blockchain) (page : Nat) : Replies := fun addresses start a =>
  ∀ h, c.StartsAt start h → c.Answers page addresses h a ∨ a.Rejected h

namespace Run

variable {w : Window} {config : SyncConfig} {b : Blockchain} {first : Option String}
  {lo hi page : Nat} {r : Run}

/-- **A run takes in honest answers only.** -/
theorem steps_of_lapses (hvalid : config.Valid) (hpage : 1 ≤ page) (hfirst : b.StartsAt first lo)
    (h : Steps (w.plan config) (b.lapses page) (start w config first lo hi) r) :
    Steps (w.plan config) (b.replies page) (start w config first lo hi) r := by
  refine h.keep (P := Steps (w.plan config) (b.replies page) (start w config first lo hi))
    (fun {r₁ r₂} hsteps hstep => hsteps.trans (.one ?_)) (.refl _)
  have hfits := (complete_of_steps hvalid hpage hfirst hsteps).exact.fits
  cases hstep with
  | @answer scan before after t log a f hreply hjudge hover =>
      have ht : t ∈ before ++ t :: after := List.mem_append_right _ List.mem_cons_self
      -- the task starts at the block that it names, so an answer rejected there is rejected by the task
      refine .answer (fun h hh => (hreply h hh).resolve_right fun hrejected => ?_) hjudge hover
      obtain ⟨v, hv⟩ := hrejected t ((hfits t ht).starts.unique hh)
      cases hjudge.symm.trans hv
  | report hle hlast => exact .report hle hlast
  | complete hle hlast => exact .complete hle hlast
  | store => exact .store
  | settle => exact .settle
  | done hlt => exact .done hlt

/-! ### Wherever a run stops -/

/-- Nothing above the height that is about to be handed over is complete. -/
theorem Sound.le_of_storing (hs : Sound lo hi r) {k x : Nat} (hstoring : r.stage.storing? = some k)
    (hc : r.scan.tracker.isComplete x = true) : x ≤ k := by
  by_contra hgt
  have hwithin := hs.stage_within
  cases hstage : r.stage with
  | waiting | reporting _ _ | settling _ _ =>
      rw [hstage] at hstoring
      cases hstoring
  | storing t k' =>
      rw [hstage] at hstoring hwithin
      cases hstoring
      obtain ⟨-, -, -, hend⟩ := hwithin
      have hhi := (hs.le_of_isComplete hc).2
      have hmem : t ∈ r.unreported x := List.mem_append_right _ (by
        rw [hstage, Stage.unreported, if_pos ⟨by omega, by omega⟩]
        exact List.mem_singleton.2 rfl)
      rw [(hs.unreported_of_isComplete hc).1] at hmem
      cases hmem

/-- **In every state, what is handed over is what the search finds below some height**, and no task
that is out asks for a height below it. -/
theorem Complete.exists_delivers {s : Search} (hr : Complete s hi r) :
    ∃ stop, stop ≤ hi + 1 ∧ s.Delivers stop r.stored ∧ ∀ t ∈ r.out, stop ≤ t.lo := by
  by_cases hlo : s.lo ≤ hi + 1
  -- the first height that is not complete, or whose block is still in its bucket
  · obtain ⟨stop, -, hhi, hstop⟩ := exists_stop (P := fun x => r.scan.tracker.isComplete x = true ∧
      r.stage.storing? ≠ some x) hlo fun {x y} hlo hle _ hx => by
        refine ⟨hr.sound.isComplete_of_le hx.1 hlo hle, fun hy => hx.2 ?_⟩
        rwa [Nat.le_antisymm (hr.sound.le_of_storing hy hx.1) hle]
    refine ⟨stop, hhi, hr.delivers_of_get_eq_nil hhi (fun b hb => ?_) fun x hlo hlt => ?_,
      fun t ht => ?_⟩
    · obtain ⟨hc, habove⟩ := hr.inOrder.isComplete b hb
      obtain ⟨hlow, hhigh⟩ := hr.sound.le_of_isComplete hc
      refine (hstop _ hlow hhigh).1 ⟨hc, fun hstoring => ?_⟩
      cases hstage : r.stage with
      | waiting | reporting _ _ | settling _ _ =>
          rw [hstage] at hstoring
          cases hstoring
      | storing t k =>
          rw [hstage] at hstoring habove
          cases hstoring
          exact Nat.lt_irrefl _ habove
    · obtain ⟨hc, hnot⟩ := (hstop x hlo (by omega)).2 hlt
      exact ⟨(hr.sound.unreported_of_isComplete hc).1, hr.drained x (.inl hc) hnot⟩
    · obtain ⟨hlow, hle, hend⟩ := hr.sound.out_within t ht
      by_contra hlt
      have hc := ((hstop t.lo hlow (by omega)).2 (Nat.not_le.1 hlt)).1
      have hmem : t ∈ r.unreported t.lo := List.mem_append_left _ (List.mem_filter.2
        ⟨ht, Task.covers_iff.2 ⟨Nat.le_refl _, hle⟩⟩)
      rw [(hr.sound.unreported_of_isComplete hc).1] at hmem
      cases hmem
  · refine ⟨hi + 1, Nat.le_refl _, hr.delivers_of_get_eq_nil (Nat.le_refl _) (fun b hb => ?_)
      fun x hlow hlt => by omega, fun t ht => ?_⟩
    · have := hr.sound.le_of_isComplete (hr.inOrder.isComplete b hb).1
      omega
    · have := hr.sound.out_within t ht
      omega

/-- What a run has handed over is final: the blocks below some height, each with all that touches the
account, and below this height no task is out. -/
def Final (w : Window) (b : Blockchain) (lo hi : Nat) (r : Run) : Prop :=
  ∃ acts stop, r.scan.journal = w.journal ++ acts ∧ stop ≤ hi + 1 ∧
    b.Extracts (w.chains.receive.addresses ++ w.chains.change.addresses) lo stop
      (Journal.added w.kind acts) ∧
    ∀ t ∈ r.out, stop ≤ t.lo ∧ ∀ x, t.lo ≤ x → x ≤ t.hi → r.scan.tracker.isComplete x = false

theorem final_of_steps (hvalid : config.Valid) (hpage : 1 ≤ page) (hfirst : b.StartsAt first lo)
    (hd : ∀ c, (w.search config b lo).Disciplined c hi)
    (h : Steps (w.plan config) (b.lapses page) (start w config first lo hi) r) :
    r.Final w b lo hi := by
  have hsteps := steps_of_lapses hvalid hpage hfirst h
  have hr := complete_of_steps hvalid hpage hfirst hsteps
  obtain ⟨stop, hhi, hdelivers, hstop⟩ := hr.exists_delivers
  obtain ⟨acts, hjournal, hadded⟩ := (records_of_steps hsteps).journal
  refine ⟨acts, stop, hjournal, hhi, ?_, fun t ht => ⟨hstop t ht, fun x hlow hhigh => ?_⟩⟩
  · rw [hadded]
    exact hdelivers.extracts hhi hvalid.gapSize_pos hd
  · exact hr.sound.not_isComplete_of_mem (List.mem_append_left _ (List.mem_filter.2
      ⟨ht, Task.covers_iff.2 ⟨hlow, hhigh⟩⟩))

/-- **A window that fails keeps final blocks only.**  Any request may fail, and any answer that is not
honest is rejected.  In every state that a run reaches, what is handed over is final.  A
synchronization stops in such a state, and leaves the window as it is there: when it fails at a reply,
the task of the request is still out, so the reply has marked no address, added no transaction and
finished no height. -/
theorem failure_keeps_final {header : Block} (hvalid : config.validate = .ok ()) (hpage : 1 ≤ page)
    (hfirst : b.header? lo = some header) (hd : ∀ c, (w.search config b lo).Disciplined c hi) :
    (∀ {r}, Steps (w.plan config) (b.lapses page) (start w config (some header.hash) lo hi) r →
      r.Final w b lo hi) ∧
    ∀ {σ} {explorer : Explorer σ}, explorer.Keeps (b.lapses page) → ∀ {result w' s s'},
      w.synchronize explorer config (some header.hash) lo hi s = (result, w', s') →
      hi < lo ∧ w' = w ∨
      ∃ exchanges r, w.synchronize explorer.recorded config (some header.hash) lo hi (s, []) =
          (result, w', s', exchanges) ∧
        Steps (w.plan config) (b.lapses page) (start w config (some header.hash) lo hi) r ∧
        r.Concludes w config lo hi result exchanges ∧ w.Leaves result r.scan w' ∧
        r.Final w b lo hi := by
  have hvalid := SyncConfig.validate_eq_ok_iff.1 hvalid
  have hstart := Blockchain.startsAt_hash hfirst
  refine ⟨final_of_steps hvalid hpage hstart hd,
    fun {σ explorer} hkeeps {result w' s s'} h => ?_⟩
  rcases Nat.lt_or_ge hi lo with hlt | hle
  · rw [Window.synchronize_of_lt w explorer config (some header.hash) hlt] at h
    cases h
    exact .inl ⟨hlt, rfl⟩
  obtain ⟨exchanges, hrecorded, r, hsteps, -, hleaves, hconcludes⟩ :=
    exchanges_of_synchronize hkeeps hle h
  exact .inr ⟨exchanges, r, hrecorded, hsteps, hconcludes, hleaves,
    final_of_steps hvalid hpage hstart hd hsteps⟩

/-- Asked from the last block on, this explorer cuts its answer within that block. -/
def cuttingExplorer : Explorer Unit :=
  { threeBlocks.explorer 2 with
    transactions addresses start s :=
      if start = some "c" then (.ok ⟨(threeBlocks.mined 2).take 1, true⟩, s)
      else (threeBlocks.explorer 2).transactions addresses start s }

theorem keeps_cuttingExplorer : cuttingExplorer.Keeps (threeBlocks.lapses 2) := by
  intro addresses start a s s' h k hk
  by_cases hstart : start = some "c"
  · subst hstart
    cases h
    have hlast : threeBlocks.header? 2 = some ⟨"c", 2, .epoch⟩ := rfl
    obtain rfl := hk.unique (Blockchain.startsAt_hash hlast)
    refine .inr fun t ht => ⟨.singleHeight 2, ?_⟩
    obtain ⟨chain, batch, start, lo, hi⟩ := t
    obtain rfl : lo = 2 := ht
    rfl
  · exact .inl ((threeBlocks.honest_explorer 2).keeps ((if_neg hstart).symm.trans h) k hk)

/-- One address, known to be used. -/
def usedAddress : Window :=
  ⟨.stable, ⟨.ofList ["a"] 1, .ofList [] 0⟩, .memory .empty, .empty, []⟩

/-- The last block is cut off, and asking for it fails: the payment before it is kept. -/
theorem failure_keeps_final_threeBlocks :
    let config : SyncConfig := ⟨0, 1, 1, 2, "g"⟩
    ∃ exchanges, ∃ r : Run, ∃ w', usedAddress.synchronize cuttingExplorer.recorded config (some "g")
        0 2 ((), []) = (.error (.failed (.protocolViolation (.singleHeight 2))), w', (), exchanges) ∧
      usedAddress.Leaves (.error (.failed (.protocolViolation (.singleHeight 2)))) r.scan w' ∧
      r.Final usedAddress threeBlocks 0 2 ∧
      Journal.added .stable w'.journal = [paymentBlock ⟨"b", 1, .epoch⟩ [("t", ["a"])]] := by
  intro config
  have hd : ∀ c, (usedAddress.search config threeBlocks 0).Disciplined c 2 := by
    intro c
    refine ⟨fun _ _ hlt => absurd hlt (Nat.not_lt_zero _), fun {i a x} ha hi _ _ => ?_⟩
    cases c with
    | receive =>
        have hlen : i < 1 := (List.getElem?_eq_some_iff.1 ha).1
        have hafter : 1 + 1 ≤ i := hi
        omega
    | change => cases ha
  have hresult : (usedAddress.synchronize cuttingExplorer config (some "g") 0 2 ()).1 =
      .error (.failed (.protocolViolation (.singleHeight 2))) := by decide +kernel
  have hadded : Journal.added .stable
      (usedAddress.synchronize cuttingExplorer config (some "g") 0 2 ()).2.1.journal =
      [paymentBlock ⟨"b", 1, .epoch⟩ [("t", ["a"])]] := by decide +kernel
  generalize hrun : usedAddress.synchronize cuttingExplorer config (some "g") 0 2 () = run
    at hresult hadded
  obtain ⟨result, w', _⟩ := run
  obtain rfl := hresult
  have hfirst : threeBlocks.header? 0 = some ⟨"g", 0, .epoch⟩ := rfl
  obtain ⟨hempty, -⟩ | ⟨exchanges, r, hrecorded, -, -, hleaves, hfinal⟩ :=
    (failure_keeps_final rfl (Nat.le_succ 1) hfirst hd).2 keeps_cuttingExplorer hrun
  · cases hempty
  exact ⟨exchanges, r, w', hrecorded, hleaves, hfinal, hadded⟩

end Run
end WatchWallet
