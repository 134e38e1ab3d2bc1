import WatchWallet.Account.Passes
import WatchWallet.Proofs.Account.Checkpointing

/-!
# Account — Passes

Requests, the steps of polls and the answers of the explorer come in any order (`play`), and leave marks.
The marks of a pass tell where it stands (`Tells`): it is created, it ends, it empties the slot, each of
them once and in this order, and while it is on its way the slot holds nothing else.  One pass at a time
follows (`one_pass_at_a_time`), and that everyone is given its outcome.
-/

namespace WatchWallet.Passes
open WatchWallet.Action (twoAddressAccount lookupFails)
open Window (threeBlocks)

variable {α τ : Type} {go : Nat → τ → Option α × τ} {p q : Passes α} {t t' : τ} {n m : Nat} {outcome : α}
  {stage stage' : Stage α}

/-! ### What may happen -/

/-- What may happen next.  A poll is made of `enter`, `resume`, `release` and `publish`, and other things
may happen between any two of them. -/
inductive Act (τ : Type) where
  | request
  | enter (n : Nat)
  | resume (n : Nat)
  | release (n : Nat)
  | publish (n : Nat)
  /-- A handle is polled when there may be nothing left to do. -/
  | ask (n : Nat)
  /-- The explorer answers, or something else changes outside. -/
  | change (t : τ)

/-- What shows of it. -/
inductive Mark (α : Type) where
  /-- A request is given the handle of a new pass. -/
  | created (n : Nat)
  /-- A request is given the handle of the pass in flight. -/
  | joined (n : Nat)
  /-- The code of a pass ends. -/
  | ended (n : Nat) (outcome : α)
  /-- A pass empties the slot, which held this. -/
  | released (n : Nat) (held : Option Nat)
  /-- A handle gives an outcome to whoever polls it. -/
  | resolved (n : Nat) (outcome : α)
deriving DecidableEq

/-- The mark of what happens. -/
def mark? (go : Nat → τ → Option α × τ) (p : Passes α) (t : τ) : Act τ → Option (Mark α)
  | .request => some (if p.isBusy then .joined p.request.1 else .created p.request.1)
  | .enter _ => none
  | .resume n =>
    match p.stages[n]? with
    | some .running => (go n t).1.map (.ended n)
    | _ => none
  | .release n =>
    match p.stages[n]? with
    | some (.ended _) => some (.released n p.inFlight)
    | _ => none
  | .publish n =>
    match p.stages[n]? with
    | some (.leaving outcome) => some (.resolved n outcome)
    | _ => none
  | .ask n => (p.outcome? n).map (.resolved n)
  | .change _ => none

/-- What comes of it. -/
def after (go : Nat → τ → Option α × τ) (p : Passes α) (t : τ) : Act τ → Passes α × τ
  | .request => (p.request.2, t)
  | .enter n => (p.enter n, t)
  | .resume n => p.resume go n t
  | .release n => (p.release n, t)
  | .publish n => (p.publish n, t)
  | .ask _ => (p, t)
  | .change t' => (p, t')

/-- Everything happens in this order. -/
def play (go : Nat → τ → Option α × τ) (p : Passes α) (t : τ) : List (Act τ) → List (Mark α) × Passes α × τ
  | [] => ([], p, t)
  | act :: acts =>
    let (q, t') := p.after go t act
    let (marks, q, t') := q.play go t' acts
    ((p.mark? go t act).toList ++ marks, q, t')

/-! ### The stages of a pass -/

theorem stages_put (p : Passes α) (n m : Nat) (stage : Stage α) : (p.put n stage).stages[m]? =
    if n = m then p.stages[m]?.map fun _ => stage else p.stages[m]? := by
  rw [put, List.getElem?_set']
  rfl

/-- Whether a pass at this stage is in flight. -/
def Stage.inSlot : Stage α → Bool
  | .waiting | .running | .ended _ => true
  | .leaving _ | .complete _ => false

namespace Mark

/-- Whether a mark is one of the life of a pass. -/
def isOf (n : Nat) : Mark α → Bool
  | .created m | .ended m _ | .released m _ => m == n
  | .joined _ | .resolved _ _ => false

end Mark

/-- The life of a pass. -/
def life (n : Nat) (marks : List (Mark α)) : List (Mark α) :=
  marks.filter (·.isOf n)

/-- The life of a pass at this stage. -/
def Stage.life (n : Nat) : Stage α → List (Mark α)
  | .waiting | .running => [.created n]
  | .ended outcome => [.created n, .ended n outcome]
  | .leaving outcome | .complete outcome => [.created n, .ended n outcome, .released n (some n)]

/-- A pass is in flight from its creation until it empties the slot. -/
def InFlight (marks : List (Mark α)) (n : Nat) : Prop :=
  .created n ∈ marks ∧ ∀ held, .released n held ∉ marks

/-- What the marks tell of the passes. -/
structure Tells (marks : List (Mark α)) (p : Passes α) : Prop where
  life : ∀ n, Passes.life n marks = p.stages[n]?.elim [] (Stage.life n)
  slot : ∀ n, p.inFlight = some n ↔ ∃ stage, p.stages[n]? = some stage ∧ stage.inSlot = true
  resolved : ∀ {n outcome}, .resolved n outcome ∈ marks → p.stages[n]? = some (.complete outcome)

namespace Tells

variable {marks new : List (Mark α)}

theorem mem_iff (h : Tells marks p) (mark : Mark α) (hof : mark.isOf n = true) :
    mark ∈ marks ↔ mark ∈ p.stages[n]?.elim [] (Stage.life n) := by
  rw [← h.life n, Passes.life, List.mem_filter, and_iff_left hof]

theorem inFlight_iff (h : Tells marks p) : InFlight marks n ↔ p.inFlight = some n := by
  rw [InFlight, h.slot n, h.mem_iff (.created n) (beq_self_eq_true n)]
  simp only [h.mem_iff (.released n _) (beq_self_eq_true n)]
  cases hn : p.stages[n]? with
  | none => simp
  | some stage => cases stage <;> simp [Stage.life, Stage.inSlot]

/-- Marks that are of no life change nothing. -/
theorem mark (h : Tells marks p) (hlife : ∀ m, Passes.life m new = [])
    (hresolved : ∀ {n outcome}, .resolved n outcome ∈ new → p.stages[n]? = some (.complete outcome)) :
    Tells (marks ++ new) p where
  life n := by rw [Passes.life, List.filter_append, ← Passes.life, ← Passes.life, hlife n,
    List.append_nil, h.life n]
  slot := h.slot
  resolved hmem := (List.mem_append.1 hmem).elim h.resolved hresolved

/-- One pass goes to its next stage, and leaves the marks of that. -/
theorem put (h : Tells marks p) (stage' : Stage α) (new : List (Mark α)) (slot : Option Nat)
    (hn : p.stages[n]? = some stage)
    (hopen : ∀ outcome, stage ≠ .complete outcome)
    (hlife : stage'.life n = stage.life n ++ Passes.life n new)
    (hother : ∀ m, m ≠ n → Passes.life m new = [])
    (hresolved : ∀ {m outcome}, .resolved m outcome ∈ new → m = n ∧ stage' = .complete outcome)
    (hslot : ∀ m, slot = some m ↔ if m = n then stage'.inSlot = true else p.inFlight = some m) :
    Tells (marks ++ new) { p.put n stage' with inFlight := slot } where
  life m := by
    rw [Passes.life, List.filter_append, ← Passes.life, ← Passes.life, h.life m, stages_put]
    by_cases hm : n = m
    · subst hm
      rw [if_pos rfl, hn]
      exact hlife.symm
    · rw [if_neg hm, hother m (Ne.symm hm), List.append_nil]
  slot m := by
    rw [hslot m, stages_put]
    by_cases hm : n = m
    · subst hm
      simp [hn]
    · rw [if_neg (Ne.symm hm), if_neg hm, h.slot m]
  resolved {m outcome} hmem := by
    rw [stages_put]
    rcases List.mem_append.1 hmem with hold | hnew
    · have hm : n ≠ m := fun hm => hopen outcome (Option.some.inj (hn.symm.trans (hm ▸ h.resolved hold)))
      rw [if_neg hm, h.resolved hold]
    · obtain ⟨rfl, rfl⟩ := hresolved hnew
      rw [if_pos rfl, hn]
      rfl

/-- The slot is as it was, since the pass is in it as it was. -/
theorem slot_kept (h : Tells marks p) (hn : p.stages[n]? = some stage)
    (hsame : stage'.inSlot = stage.inSlot) (m : Nat) :
    p.inFlight = some m ↔ if m = n then stage'.inSlot = true else p.inFlight = some m := by
  by_cases hm : m = n
  · subst hm
    rw [if_pos rfl, h.slot m, hn, hsame]
    simp
  · rw [if_neg hm]

/-- A pass that ends is the one in the slot, so that nothing else leaves it. -/
theorem slot_left (h : Tells marks p) (hn : p.stages[n]? = some stage) (hin : stage.inSlot = true)
    (hout : stage'.inSlot = false) (m : Nat) :
    none = some m ↔ if m = n then stage'.inSlot = true else p.inFlight = some m := by
  have hheld : p.inFlight = some n := (h.slot n).2 ⟨stage, hn, hin⟩
  by_cases hm : m = n
  · simp [hm, hout]
  · simp [hm, hheld, Ne.symm hm]

theorem request (h : Tells marks p) :
    Tells (marks ++ [if p.isBusy then .joined p.request.1 else .created p.request.1]) p.request.2 := by
  unfold Passes.request isBusy
  cases hslot : p.inFlight with
  | some n => exact h.mark (fun _ => rfl) (by simp)
  | none =>
      -- no pass in flight: the new one is the last of the list
      have hnew : ∀ m, (p.stages ++ [Stage.waiting])[m]? =
          if m = p.stages.length then some .waiting else p.stages[m]? := by
        intro m
        rcases Nat.lt_trichotomy m p.stages.length with hlt | rfl | hgt
        · rw [List.getElem?_append_left hlt, if_neg (Nat.ne_of_lt hlt)]
        · rw [List.getElem?_concat_length, if_pos rfl]
        · rw [if_neg (Nat.ne_of_gt hgt), List.getElem?_eq_none (Nat.le_of_lt hgt),
            List.getElem?_eq_none (by rw [List.length_append]; exact hgt)]
      have hlast : p.stages[p.stages.length]? = none := List.getElem?_eq_none (Nat.le_refl _)
      refine ⟨fun m => ?_, fun m => ?_, fun {m outcome} hmem => ?_⟩
      · rw [Passes.life, List.filter_append, ← Passes.life, h.life m]
        dsimp only
        rw [hnew]
        by_cases hm : m = p.stages.length
        · subst hm
          simp [Stage.life, Mark.isOf]
        · simp [hm, Mark.isOf, Ne.symm hm]
      · dsimp only
        rw [hnew]
        by_cases hm : m = p.stages.length
        · simp [hm, Stage.inSlot]
        · rw [if_neg hm, ← h.slot m, hslot]
          simp [Ne.symm hm]
      · have hold : p.stages[m]? = some (.complete outcome) := h.resolved (by simpa using hmem)
        dsimp only
        rw [hnew, if_neg, hold]
        rintro rfl
        exact absurd (hlast.symm.trans hold) (by simp)

theorem enter (h : Tells marks p) (n : Nat) : Tells marks (p.enter n) := by
  unfold Passes.enter
  rcases hn : p.stages[n]? with _ | stage
  · exact h
  cases stage with
  | waiting =>
      have hnext := h.put .running [] p.inFlight hn (by simp) rfl (fun _ _ => rfl) (by simp)
        (h.slot_kept hn rfl)
      rwa [List.append_nil] at hnext
  | _ => exact h

theorem resume (h : Tells marks p) (n : Nat) :
    Tells (marks ++ (p.mark? go t (.resume n)).toList) (p.resume go n t).1 := by
  dsimp only [mark?, Passes.resume]
  rcases hn : p.stages[n]? with _ | stage
  · simpa using h
  cases stage with
  | running =>
      rcases go n t with ⟨_ | outcome, t'⟩
      · exact h.put .waiting [] p.inFlight hn (by simp) rfl (fun _ _ => rfl) (by simp)
          (h.slot_kept hn rfl)
      · exact h.put (.ended outcome) [.ended n outcome] p.inFlight hn (by simp)
          (by simp [Stage.life, Passes.life, Mark.isOf])
          (fun m hm => by simp [Passes.life, Mark.isOf, Ne.symm hm]) (by simp) (h.slot_kept hn rfl)
  | _ => simpa using h

theorem release (h : Tells marks p) (n : Nat) :
    Tells (marks ++ (p.mark? go t (.release n)).toList) (p.release n) := by
  dsimp only [mark?, Passes.release]
  rcases hn : p.stages[n]? with _ | stage
  · simpa using h
  cases stage with
  | ended outcome =>
      have hheld : p.inFlight = some n := (h.slot n).2 ⟨_, hn, rfl⟩
      rw [hheld]
      exact h.put (.leaving outcome) [.released n (some n)] none hn (by simp)
        (by simp [Stage.life, Passes.life, Mark.isOf])
        (fun m hm => by simp [Passes.life, Mark.isOf, Ne.symm hm]) (by simp) (h.slot_left hn rfl rfl)
  | _ => simpa using h

theorem publish (h : Tells marks p) (n : Nat) :
    Tells (marks ++ (p.mark? go t (.publish n)).toList) (p.publish n) := by
  dsimp only [mark?, Passes.publish]
  rcases hn : p.stages[n]? with _ | stage
  · simpa using h
  cases stage with
  | leaving outcome =>
      exact h.put (.complete outcome) [.resolved n outcome] p.inFlight hn (by simp)
        (by simp [Stage.life, Passes.life, Mark.isOf]) (fun _ _ => rfl)
        (fun hmem => by simpa [eq_comm] using hmem) (h.slot_kept hn rfl)
  | _ => simpa using h

theorem stages_of_outcome? (hn : p.outcome? n = some outcome) : p.stages[n]? = some (.complete outcome) := by
  unfold outcome? at hn
  split at hn
  case h_1 heq => rw [heq, Option.some.inj hn]
  case h_2 => cases hn

theorem ask (h : Tells marks p) (n : Nat) :
    Tells (marks ++ (p.mark? go t (.ask n)).toList) p := by
  refine h.mark (fun m => ?_) fun {m outcome} hmem => ?_
  · cases hn : p.outcome? n <;> simp [mark?, hn, Passes.life, Mark.isOf]
  · simp only [mark?, Option.mem_toList, Option.map_eq_some_iff] at hmem
    obtain ⟨outcome, hn, heq⟩ := hmem
    cases heq
    exact stages_of_outcome? hn

/-- **Whatever happens next, the marks tell of it.** -/
theorem step (h : Tells marks p) (act : Act τ) :
    Tells (marks ++ (p.mark? go t act).toList) (p.after go t act).1 := by
  cases act with
  | request => exact h.request
  | enter n => exact (List.append_nil marks).symm ▸ h.enter n
  | resume n => exact h.resume n
  | release n => exact h.release n
  | publish n => exact h.publish n
  | ask n => exact h.ask n
  | change t => exact (List.append_nil marks).symm ▸ h

/-- **The marks tell of everything that happened.** -/
theorem play (h : Tells marks p) {acts : List (Act τ)} (hplay : p.play go t acts = (new, q, t')) :
    Tells (marks ++ new) q := by
  induction acts generalizing marks p t new with
  | nil =>
      cases hplay
      rwa [List.append_nil]
  | cons act acts ih =>
      have hstep : Tells (marks ++ (p.mark? go t act).toList) (p.after go t act).1 := h.step act
      rcases hnext : p.after go t act with ⟨p₁, t₁⟩
      rcases hrest : p₁.play go t₁ acts with ⟨marks₁, q₁, t₁'⟩
      rw [hnext] at hstep
      rw [Passes.play, hnext] at hplay
      dsimp only at hplay
      rw [hrest] at hplay
      cases hplay
      rw [← List.append_assoc]
      exact ih hstep hrest

end Tells

theorem tells_empty : Tells [] (empty : Passes α) where
  life _ := rfl
  slot _ := by simp [empty]
  resolved hmem := absurd hmem List.not_mem_nil

/-! ### Polls that nothing interrupts -/

theorem put_put (p : Passes α) (n : Nat) (stage stage' : Stage α) :
    (p.put n stage).put n stage' = p.put n stage' := by
  rw [put, put, put, List.set_set]

theorem put_self (hn : p.stages[n]? = some stage) : p.put n stage = p := by
  obtain ⟨hlt, rfl⟩ := List.getElem?_eq_some_iff.1 hn
  rw [put, List.set_getElem_self hlt]

theorem stages_put_self (hn : p.stages[n]? = some stage) : (p.put n stage').stages[n]? = some stage' := by
  rw [stages_put, if_pos rfl, hn]
  rfl

theorem release_of_ended (hn : p.stages[n]? = some (.ended outcome)) :
    p.release n = { p.put n (.leaving outcome) with inFlight := none } := by
  rw [release, hn]

theorem publish_of_leaving (hn : p.stages[n]? = some (.leaving outcome)) :
    p.publish n = p.put n (.complete outcome) := by
  rw [publish, hn]

/-- A poll of a pass that waits takes it further; if it ends, it leaves the slot and is complete. -/
theorem poll_of_waiting (hn : p.stages[n]? = some .waiting) (go : Nat → τ → Option α × τ) (t : τ) :
    p.poll go n t = match go n t with
      | (none, t') => (none, p, t')
      | (some outcome, t') => (some outcome, { p.put n (.complete outcome) with inFlight := none }, t') := by
  have henter : p.enter n = p.put n .running := by rw [enter, hn]
  have hrunning : (p.put n .running).stages[n]? = some .running := stages_put_self hn
  rw [poll, hn]
  dsimp only
  rw [henter, resume, hrunning]
  dsimp only
  rcases go n t with ⟨_ | outcome, t'⟩
  · dsimp only
    rw [put_put, put_self hn]
    simp [release, publish, outcome?, hn]
  -- the poll in which the code ends does all that is left: it empties the slot and tells the outcome
  · dsimp only
    rw [put_put]
    have hleft : (p.put n (.ended outcome)).release n =
        { p.put n (.leaving outcome) with inFlight := none } := by
      rw [release_of_ended (stages_put_self hn), put_put]
    have hleaving : ({ p.put n (.leaving outcome) with inFlight := none } : Passes α).stages[n]? =
        some (.leaving outcome) := stages_put_self hn
    have hcomplete : (p.put n (.complete outcome)).stages[n]? = some (.complete outcome) :=
      stages_put_self hn
    have hdone : ({ p.put n (.leaving outcome) with inFlight := none } : Passes α).publish n =
        { p.put n (.complete outcome) with inFlight := none } :=
      (publish_of_leaving hleaving).trans (put_put { p with inFlight := none } n _ _)
    rw [hleft, hdone, outcome?]
    dsimp only
    rw [hcomplete]

/-- A poll that nothing interrupts is some of the things that may happen. -/
theorem exists_play_eq_poll (go : Nat → τ → Option α × τ) (p : Passes α) (n : Nat) (t : τ) :
    ∃ acts, (p.play go t acts).2 = (p.poll go n t).2 := by
  unfold poll
  split
  case h_1 => exact ⟨[.enter n, .resume n, .release n, .publish n], rfl⟩
  case h_2 => exact ⟨[.ask n], rfl⟩

/-! ### One pass at a time -/

/-- Whoever polls a handle is given this outcome, and nothing else happens. -/
def Resolves (go : Nat → τ → Option α × τ) (p : Passes α) (n : Nat) (outcome : α) : Prop :=
  ∀ t, p.poll go n t = (some outcome, p, t)

theorem resolves_of_stages (hn : p.stages[n]? = some (.complete outcome)) :
    p.Resolves go n outcome := by
  intro t
  rw [poll, outcome?, hn]

/-- When the code has ended, the rest of the poll gives its outcome to every handle. -/
theorem resolves_publish (h : p.stages[n]? = some (.ended outcome) ∨ p.stages[n]? = some (.leaving outcome) ∨
      p.stages[n]? = some (.complete outcome)) : ((p.release n).publish n).Resolves go n outcome := by
  have hleaving : ∀ {q : Passes α}, q.stages[n]? = some (Stage.leaving outcome) →
      (q.publish n).Resolves go n outcome := fun hq => by
    rw [publish_of_leaving hq]
    exact resolves_of_stages (stages_put_self hq)
  rcases h with hn | hn | hn
  · refine hleaving ?_
    rw [release_of_ended hn]
    exact stages_put_self hn
  · rw [release, hn]
    exact hleaving hn
  · rw [release, hn]
    dsimp only
    rw [publish, hn]
    exact resolves_of_stages hn

variable {acts : List (Act τ)} {marks : List (Mark α)} {t₀ : τ}

/-- **There is one pass at a time.**  Whatever happened in which order, the slot holds the pass that was
created and has not left, so that at most one pass runs; a request joins it, and creates a new one if there
is none.  A pass is created, ends with an outcome and empties the slot, which holds itself, once each and
whatever the outcome is.  All that its handles ever give is that outcome, and they give it from then on:
the poll in which the code ends sees to that. -/
theorem one_pass_at_a_time (hplay : empty.play go t₀ acts = (marks, p, t)) :
    (∀ n, InFlight marks n ↔ p.inFlight = some n) ∧
    (p.isBusy = true ↔ ∃ n, InFlight marks n) ∧
    (∀ {n m : Nat}, p.stages[n]? = some Stage.running → p.stages[m]? = some Stage.running → n = m) ∧
    (∀ {n}, InFlight marks n → p.request = (n, p)) ∧
    ((∀ n, ¬ InFlight marks n) →
      ∃ n q, p.request = (n, q) ∧ Mark.created n ∉ marks ∧ q.inFlight = some n) ∧
    (∀ n, life n marks = [] ∨ life n marks = [.created n] ∨ ∃ outcome,
      life n marks = [.created n, .ended n outcome] ∨
      life n marks = [.created n, .ended n outcome, .released n (some n)]) ∧
    (∀ {n outcome}, Mark.resolved n outcome ∈ marks →
      Mark.ended n outcome ∈ marks ∧ Mark.released n (some n) ∈ marks ∧ p.Resolves go n outcome) ∧
    (∀ {n outcome}, Mark.ended n outcome ∈ marks → ((p.release n).publish n).Resolves go n outcome) ∧
    ∀ {n : Nat} {t t' outcome}, p.stages[n]? = some Stage.waiting → go n t = (some outcome, t') →
      ∃ q, p.poll go n t = (some outcome, q, t') ∧ q.isBusy = false ∧ q.Resolves go n outcome := by
  have h : Tells marks p := tells_empty.play hplay
  refine ⟨fun n => h.inFlight_iff, ?_, fun {n m} hn hm => ?_, fun {n} hn => ?_, fun hnone => ?_, fun n => ?_,
    fun {n outcome} hmem => ?_, fun {n outcome} hmem => ?_, fun {n t t' outcome} hn hgo => ?_⟩
  · rw [isBusy, Option.isSome_iff_exists]
    exact exists_congr fun n => h.inFlight_iff.symm
  · have heq := ((h.slot n).2 ⟨_, hn, rfl⟩).symm.trans ((h.slot m).2 ⟨_, hm, rfl⟩)
    exact Option.some.inj heq
  · rw [request, h.inFlight_iff.1 hn]
  · have hslot : p.inFlight = none :=
      Option.eq_none_iff_forall_ne_some.2 fun n hn => hnone n (h.inFlight_iff.2 hn)
    refine ⟨p.stages.length, ⟨some p.stages.length, p.stages ++ [.waiting]⟩, by rw [request, hslot],
      fun hmem => ?_, rfl⟩
    rw [h.mem_iff _ (beq_self_eq_true _), List.getElem?_eq_none (Nat.le_refl _)] at hmem
    exact absurd hmem List.not_mem_nil
  · rw [h.life n]
    rcases p.stages[n]? with _ | stage
    · exact .inl rfl
    · cases stage with
      | waiting | running => exact .inr (.inl rfl)
      | ended outcome => exact .inr (.inr ⟨outcome, .inl rfl⟩)
      | leaving outcome | complete outcome => exact .inr (.inr ⟨outcome, .inr rfl⟩)
  · have hn := h.resolved hmem
    refine ⟨?_, ?_, resolves_of_stages hn⟩
    · rw [h.mem_iff (.ended n outcome) (beq_self_eq_true n), hn]
      simp [Stage.life]
    · rw [h.mem_iff (.released n (some n)) (beq_self_eq_true n), hn]
      simp [Stage.life]
  · refine resolves_publish ?_
    rw [h.mem_iff (.ended n outcome) (beq_self_eq_true n)] at hmem
    rcases hn : p.stages[n]? with _ | stage <;> rw [hn] at hmem
    · cases hmem
    · cases stage <;> simp_all [Stage.life]
  · refine ⟨{ p.put n (.complete outcome) with inFlight := none }, ?_, rfl, resolves_of_stages ?_⟩
    · rw [poll_of_waiting hn, hgo]
    · exact stages_put_self hn

/-- The code of a pass over an account: it waits until there is an explorer. -/
def passCode (_ : Nat) : Account × Option (Explorer Unit) →
    Option (Except Stop SyncStats) × Account × Option (Explorer Unit)
  | (a, none) => (none, a, none)
  | (a, some explorer) =>
    let p : Pass := ⟨Unit, explorer, (), .epoch, a⟩
    (some p.outcome, p.after, some explorer)

/-- Requests come before, during and after the polls of a pass that fails; the last one creates a pass that
finds everything. -/
theorem one_pass_at_a_time_failureFirst :
    let first : Pass := ⟨Unit, lookupFails, (), .epoch, twoAddressAccount⟩
    let second : Pass := ⟨Unit, threeBlocks.explorer 2, (), .epoch, first.after⟩
    let final : Passes _ := ⟨none, [.complete first.outcome, .complete second.outcome]⟩
    empty.play passCode (twoAddressAccount, none)
        [.request, .request, .enter 0, .request, .resume 0, .change (twoAddressAccount, some lookupFails),
          .enter 0, .resume 0, .request, .release 0, .request, .publish 0, .ask 0,
          .change (first.after, some (threeBlocks.explorer 2)), .enter 1, .resume 1, .release 1,
          .publish 1] =
        ([.created 0, .joined 0, .joined 0, .ended 0 first.outcome, .joined 0, .released 0 (some 0),
          .created 1, .resolved 0 first.outcome, .resolved 0 first.outcome, .ended 1 second.outcome,
          .released 1 (some 1), .resolved 1 second.outcome],
          final, second.after, some (threeBlocks.explorer 2)) ∧
      final.Resolves passCode 0 first.outcome ∧ final.Resolves passCode 1 second.outcome ∧
      ∃ q, final.request = (2, q) ∧ q.inFlight = some 2 := by
  intro first second final
  refine (and_iff_left_of_imp fun hplay => ?_).2 rfl
  obtain ⟨hslot, -, -, -, hnew, -, hresolved, -⟩ := one_pass_at_a_time hplay
  obtain ⟨n, q, hq, -, hheld⟩ := hnew fun n hn => by cases (hslot n).1 hn
  cases hq
  exact ⟨(hresolved (by simp)).2.2, (hresolved (by simp)).2.2, _, rfl, hheld⟩

end WatchWallet.Passes
