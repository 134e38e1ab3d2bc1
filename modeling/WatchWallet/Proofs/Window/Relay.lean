import WatchWallet.Proofs.Window.Requests
import WatchWallet.Proofs.Window.Truncation

/-!
# Window — Relay

How a task and its continuations share its heights.  An answer settles the heights of its task up to the
last one that it tells completely, and the continuation starts right above (`Leg.rest?_eq_some`).  So the
ranges of a task that goes on until nothing is left open tile the heights of the task (`Relay.tiles`).  In
a run, the continuation that follows from an answer is out until it is answered in turn
(`Run.Passes.step`): when no task is out any more, every task that was registered has come to its end, and
what it and its continuations accepted lies in their ranges (`Run.answers_tile`).
-/

namespace WatchWallet

/-- The last height that an answer settles, for a task that asks up to `hi`. -/
def Finding.through (hi : Nat) : Finding → Nat
  | quiet => hi
  | active _ _ lastFull => min lastFull hi

/-- The same addresses again, from the first height that is left open. -/
def Task.rest? (t : Task) : Finding → Option Task
  | .quiet => none
  | .active _ high lastFull =>
    if lastFull < t.hi then some (t.continuation high lastFull) else none

/-- A task with an answer that keeps the contract, and what the answer tells. -/
structure Leg extends Answered where
  finding : Finding
  judged : task.judge answer = .ok finding

namespace Leg

/-- The last height that is settled. -/
def through (x : Leg) : Nat := x.finding.through x.task.hi

/-- The heights that are settled. -/
def heights (x : Leg) : List Nat := List.range' x.task.lo (x.through + 1 - x.task.lo)

/-- The transactions that are accepted. -/
def accepted (x : Leg) : List Transaction := x.task.accepted x.finding x.answer

/-- The task for the heights that are left open. -/
def rest? (x : Leg) : Option Task := x.task.rest? x.finding

end Leg

/-- A task, and its continuations one after the other until nothing is left open. -/
inductive Relay : Task → List Leg → Prop where
  | last {x : Leg} (h : x.rest? = none) : Relay x.task [x]
  | next {x : Leg} {c : Task} {legs : List Leg} (hrest : x.rest? = some c) (h : Relay c legs) :
      Relay x.task (x :: legs)

/-- The ranges of the legs tile the heights of a task, and what they accept lies in their ranges. -/
structure Tiles (t : Task) (legs : List Leg) : Prop where
  nonempty : ∀ x ∈ legs, x.task.lo ≤ x.through
  disjoint : legs.Pairwise fun x y => x.through < y.task.lo
  adjacent : legs.IsChain fun x y => y.task.lo = x.through + 1
  covers : legs.flatMap Leg.heights = List.range' t.lo (t.hi + 1 - t.lo)
  ascending : (legs.map (·.task.lo)).Pairwise (· < ·)
  accepted : ∀ x ∈ legs, ∀ tx ∈ x.accepted, ∃ h ∈ x.heights, tx.height? = some h

/-! ### One leg -/

namespace Leg

variable {x : Leg} {c : Task}

/-- An answer settles the first height of its task, and none beyond the last. -/
theorem through_mem (hle : x.task.lo ≤ x.task.hi) : x.task.lo ≤ x.through ∧ x.through ≤ x.task.hi := by
  obtain ⟨⟨t, a⟩, f, hjudge⟩ := x
  cases f with
  | quiet => exact ⟨hle, Nat.le_refl _⟩
  | active low high lastFull =>
      have hle : t.lo ≤ t.hi := hle
      have hfull : t.lo ≤ lastFull := (Task.le_of_judge hjudge).2.elim id (Nat.le_trans hle)
      exact ⟨Nat.le_min.2 ⟨hfull, hle⟩, Nat.min_le_right ..⟩

theorem through_of_rest?_eq_none (h : x.rest? = none) : x.through = x.task.hi := by
  obtain ⟨⟨t, a⟩, f, hjudge⟩ := x
  cases f with
  | quiet => rfl
  | active low high lastFull =>
      simp only [rest?, Task.rest?, ite_eq_right_iff, reduceCtorEq, imp_false, Nat.not_lt] at h
      exact Nat.min_eq_right h

/-- The continuation starts right above what is settled. -/
theorem rest?_eq_some (h : x.rest? = some c) :
    c.lo = x.through + 1 ∧ x.through < x.task.hi ∧ c.hi = x.task.hi := by
  obtain ⟨⟨t, a⟩, f, hjudge⟩ := x
  cases f with
  | quiet => cases h
  | active low high lastFull =>
      simp only [rest?, Task.rest?, Option.ite_none_right_eq_some, Option.some.injEq] at h
      obtain ⟨hlt, rfl⟩ := h
      have hmin : min lastFull t.hi = lastFull := Nat.min_eq_left (Nat.le_of_lt hlt)
      simp only [through, Finding.through, hmin]
      exact ⟨rfl, hlt, rfl⟩

/-- What is accepted lies at the heights that are settled. -/
theorem height?_of_mem_accepted {tx : Transaction} (h : tx ∈ x.accepted) :
    ∃ k ∈ x.heights, tx.height? = some k := by
  obtain ⟨-, k, hk, hlo, -⟩ := Task.height?_of_mem_accepted x.judged h
  refine ⟨k, List.mem_range'_1.2 ⟨hlo, ?_⟩, hk⟩
  have hle : k ≤ x.through := by
    obtain ⟨⟨t, a⟩, f, hjudge⟩ := x
    cases f with
    | quiet => cases h
    | active low high lastFull =>
        have hlimit := (List.mem_filter.1 h).2
        rw [hk, Option.any_some, decide_eq_true_eq] at hlimit
        exact hlimit
  omega

end Leg

/-- The continuation is among the tasks that follow. -/
theorem Task.mem_children_of_rest? {p : Plan} {t c : Task} {f : Finding} (hlive : t.isLive = true)
    (h : t.rest? f = some c) : c ∈ t.children p f := by
  cases f with
  | quiet => cases h
  | active low high lastFull =>
      simp only [rest?, Option.ite_none_right_eq_some, Option.some.injEq] at h
      obtain ⟨hlt, rfl⟩ := h
      exact mem_children_active.2 ⟨.inr ⟨hlt, rfl⟩, isLive_iff.2 ⟨(isLive_iff.1 hlive).1, hlt⟩⟩

/-! ### All legs -/

namespace Relay

variable {t : Task} {legs : List Leg}

theorem exists_cons (h : Relay t legs) : ∃ x rest, legs = x :: rest ∧ x.task = t := by
  cases h with
  | last _ => exact ⟨_, _, rfl, rfl⟩
  | next _ _ => exact ⟨_, _, rfl, rfl⟩

/-- **The legs of a relay tile the heights of its task.** -/
theorem tiles (h : Relay t legs) (hle : t.lo ≤ t.hi) : Tiles t legs := by
  induction h with
  | @last x hnone =>
      have hthrough := Leg.through_of_rest?_eq_none hnone
      refine ⟨fun y hy => ?_, List.pairwise_singleton .., .singleton _, ?_, List.pairwise_singleton ..,
        fun y _ tx => Leg.height?_of_mem_accepted⟩
      · obtain rfl := List.mem_singleton.1 hy
        exact (Leg.through_mem hle).1
      · rw [List.flatMap_singleton, Leg.heights, hthrough]
  | @next x c legs hrest hrelay ih =>
      obtain ⟨hlo, hlt, hhi⟩ := Leg.rest?_eq_some hrest
      obtain ⟨hmem, -⟩ := Leg.through_mem hle
      have hrest := ih (by omega)
      have habove : ∀ y ∈ legs, x.through < y.task.lo := by
        intro y hy
        have hin : y.task.lo ∈ legs.flatMap Leg.heights :=
          List.mem_flatMap.2 ⟨y, hy, List.mem_range'_1.2 ⟨Nat.le_refl _, by
            have := hrest.nonempty y hy
            omega⟩⟩
        rw [hrest.covers, List.mem_range'_1] at hin
        omega
      refine ⟨List.forall_mem_cons.2 ⟨hmem, hrest.nonempty⟩, List.pairwise_cons.2 ⟨habove, hrest.disjoint⟩,
        ?_, ?_, ?_, fun y _ tx => Leg.height?_of_mem_accepted⟩
      · obtain ⟨y, rest, rfl, rfl⟩ := hrelay.exists_cons
        exact .cons_cons hlo hrest.adjacent
      · rw [List.flatMap_cons, hrest.covers, Leg.heights, hlo, hhi]
        have hsplit : x.task.hi + 1 - x.task.lo =
            (x.through + 1 - x.task.lo) + (x.task.hi + 1 - (x.through + 1)) := by omega
        have hnext : x.task.lo + (x.through + 1 - x.task.lo) = x.through + 1 := by omega
        rw [hsplit, ← List.range'_append_1, hnext]
      · rw [List.map_cons, List.pairwise_cons]
        refine ⟨fun k hk => ?_, hrest.ascending⟩
        obtain ⟨y, hy, rfl⟩ := List.mem_map.1 hk
        exact Nat.lt_of_le_of_lt hmem (habove y hy)

end Relay

/-! ### Runs -/

namespace Run

variable {w : Window} {config : SyncConfig} {first : Option String} {lo hi : Nat} {p : Plan}
  {replies : Replies} {r r' : Run}

/-- The heights that an answer leaves open are asked for by a task that is answered later, or that is
out. -/
def Passes (r : Run) : Prop :=
  ∀ before x after, r.answered = before ++ x :: after →
    x.task.isLive = true ∧ ∃ f, x.task.judge x.answer = .ok f ∧
      ∀ c, x.task.rest? f = some c → c ∈ after.map Answered.task ∨ c ∈ r.out

theorem Passes.step (hr : r.Passes) (hlive : ∀ t ∈ r.out, t.isLive = true)
    (h : Step p replies r r') : r'.Passes := by
  intro before x after heq
  cases h.effect with
  | @answer before' after' t a f _ hjudge hout hout' _ _ _ hanswered =>
      rw [hanswered] at heq
      rcases List.eq_nil_or_concat after with rfl | ⟨rest, y, rfl⟩
      -- the answer of this step: its continuation goes out
      · obtain ⟨-, hx⟩ := List.append_inj' heq rfl
        cases hx
        have ht : t.isLive = true := hlive t (hout ▸ List.mem_append_right _ List.mem_cons_self)
        refine ⟨ht, f, hjudge, fun c hc => .inr ?_⟩
        rw [hout']
        exact List.mem_append_left _ (List.mem_append_right _ (Task.mem_children_of_rest? ht hc))
      -- an earlier one: its continuation is the task of this step, or still out
      · rw [List.concat_eq_append, ← List.cons_append, ← List.append_assoc] at heq
        obtain ⟨hbefore, hy⟩ := List.append_inj' heq rfl
        cases hy
        obtain ⟨hx, f', hjudge', hrest⟩ := hr _ _ _ hbefore
        refine ⟨hx, f', hjudge', fun c hc => ?_⟩
        rw [List.concat_eq_append, List.map_append, List.mem_append]
        rcases hrest c hc with hlater | hwaits
        · exact .inl (.inl hlater)
        · rcases eq_or_mem_out hout hout' hwaits with rfl | hwaits
          · exact .inl (.inr List.mem_cons_self)
          · exact .inr hwaits
  | store hout _ _ _ hanswered | none hout _ _ _ hanswered =>
      rw [hanswered] at heq
      rw [hout]
      exact hr _ _ _ heq

theorem passes_of_steps (h : Steps (w.plan config) replies (start w config first lo hi) r) :
    r.Passes := by
  refine (h.keep (P := fun r => Steps (w.plan config) replies (start w config first lo hi) r ∧ r.Passes)
    (fun hr hstep => ⟨hr.1.trans (.one hstep), hr.2.step (reports_of_steps hr.1).live hstep⟩)
    ⟨.refl _, fun before x after heq => ?_⟩).2
  exact absurd heq.symm (List.append_ne_nil_of_right_ne_nil _ (List.cons_ne_nil _ _))

/-- When no task is out any more, an answer is followed by those that the continuations took in. -/
theorem Passes.relay (hr : r.Passes) (hout : r.out = []) {before after : List Answered} {x : Answered}
    (heq : r.answered = before ++ x :: after) :
    ∃ (leg : Leg) (legs : List Leg), leg.toAnswered = x ∧ Relay x.task (leg :: legs) ∧
      (legs.map Leg.toAnswered).Sublist after := by
  induction hlen : after.length using Nat.strong_induction_on generalizing before x after with
  | _ n ih =>
      obtain ⟨-, f, hjudge, hrest⟩ := hr _ _ _ heq
      let leg : Leg := ⟨x, f, hjudge⟩
      cases hopen : x.task.rest? f with
      | none => exact ⟨leg, [], rfl, .last (x := leg) hopen, List.nil_sublist _⟩
      | some c =>
          have hlater : c ∈ after.map Answered.task := by
            rcases hrest c hopen with hlater | hwaits
            · exact hlater
            · rw [hout] at hwaits
              cases hwaits
          obtain ⟨y, hy, rfl⟩ := List.mem_map.1 hlater
          obtain ⟨skipped, rest, rfl⟩ := List.append_of_mem hy
          have hsplit : r.answered = (before ++ x :: skipped) ++ y :: rest := by simpa using heq
          obtain ⟨next, legs, rfl, hrelay, hsub⟩ := ih rest.length (by simp at hlen; omega) hsplit rfl
          refine ⟨leg, next :: legs, rfl, .next (x := leg) hopen hrelay, ?_⟩
          exact (hsub.cons_cons _).trans (List.sublist_append_right ..)

/-- Every registered task was answered once; its answer begins a relay, made of later answers; and every
relay of a registered task tiles its heights. -/
structure Relayed (r : Run) : Prop where
  answered : r.launched.Perm (r.answered.map Answered.task)
  relay : ∀ {before x after}, r.answered = before ++ x :: after →
    ∃ (leg : Leg) (legs : List Leg), leg.toAnswered = x ∧ Relay x.task (leg :: legs) ∧
      (legs.map Leg.toAnswered).Sublist after
  tiles : ∀ {t legs}, t ∈ r.launched → Relay t legs → Tiles t legs

theorem relayed_of_steps (h : Steps (w.plan config) replies (start w config first lo hi) r)
    (hout : r.out = []) : r.Relayed := by
  have htracked := tracked_of_steps h
  rw [Tracked, hout, List.append_nil] at htracked
  refine ⟨htracked, (passes_of_steps h).relay hout, fun {t legs} ht hrelay => hrelay.tiles ?_⟩
  obtain ⟨r₀, hsteps, hmem⟩ := exists_steps_of_mem_launched h ht
  exact (Task.isLive_iff.1 ((reports_of_steps hsteps).live t hmem)).2

/-- **A batch and its continuations tile the heights that the batch is asked for**, whatever the explorer
answers and in whichever order.  This holds when no task is out any more, and a synchronization that
succeeds on some heights is such a run, which took in the answers that the explorer gave. -/
theorem answers_tile (w : Window) (config : SyncConfig) (first : Option String) (lo hi : Nat) :
    (∀ {replies r}, Steps (w.plan config) replies (start w config first lo hi) r → r.out = [] →
      r.Relayed) ∧
    ∀ {σ} {explorer : Explorer σ} {s s' stats w'},
      w.synchronize explorer config first lo hi s = (.ok stats, w', s') →
      hi < lo ∧ w' = w ∨
      ∃ exchanges r, w.synchronize explorer.recorded config first lo hi (s, []) =
          (.ok stats, w', s', exchanges) ∧
        Steps (w.plan config) (fun _ _ _ => True) (start w config first lo hi) r ∧
        exchanges = r.answered.map Answered.exchange ∧ w.Leaves (.ok stats) r.scan w' ∧ r.Relayed := by
  refine ⟨relayed_of_steps, fun {σ explorer s s' stats w'} h => ?_⟩
  rcases Nat.lt_or_ge hi lo with hlt | hle
  · rw [Window.synchronize_of_lt w explorer config first hlt] at h
    cases h
    exact .inl ⟨hlt, rfl⟩
  · have hkeeps : explorer.Keeps fun _ _ _ => True := fun _ => trivial
    obtain ⟨exchanges, hrecorded, r, hsteps, -, hleaves, hconcludes⟩ :=
      exchanges_of_synchronize hkeeps hle h
    refine .inr ⟨exchanges, r, hrecorded, hsteps, ?_⟩
    generalize hresult : Except.ok stats = result at hconcludes
    cases hconcludes with
    | unfit _ _ => cases hresult
    | joined _ hout => exact ⟨rfl, hresult ▸ hleaves, relayed_of_steps hsteps hout⟩
    | failed _ _ => cases hresult

/-- A cut page and the rest of it: the continuation asks for the second height alone. -/
theorem answers_tile_cutPage :
    let config : SyncConfig := ⟨0, 1, 1, 1, "g"⟩
    let t : Task := ⟨.receive, ⟨["a"], 0, .gap⟩, none, 0, 1⟩
    ∃ r legs, Steps (oneAddress.plan config) (fun _ _ _ => True) (start oneAddress config none 0 1) r ∧
      r.Relayed ∧ t ∈ r.launched ∧ legs.map Leg.toAnswered = r.answered ∧ Relay t legs ∧ Tiles t legs ∧
      legs.map Leg.heights = [[0], [1]] ∧ legs.flatMap Leg.accepted = [onePayment] := by
  intro config t
  let p := oneAddress.plan config
  let rest : Task := ⟨.receive, ⟨["a"], 0, .regular⟩, some "h", 1, 1⟩
  let page : Answer :=
    ⟨[onePayment, { onePayment with hash := "u", block := some ⟨"h", 1, .epoch⟩ }], true⟩
  let f : Finding := .active ⟨"g", 0, .epoch⟩ ⟨"h", 1, .epoch⟩ 0
  have hfirst : oneAddress.bootstrap config none 0 1 = [] ++ t :: [] := by decide +kernel
  have hanswer : Step p (fun _ _ _ => True) ⟨(oneAddress.scan 0 1).launch ([] ++ t :: []),
      [] ++ t :: [], .waiting, [.launch ([] ++ t :: [])]⟩ _ :=
    .answer (a := page) (f := f) trivial rfl rfl
  have hpage := Steps.more hanswer (.more (.complete (by decide) (by decide +kernel)) (.more .store
    (.more .settle (.more (.report (by decide) (by decide +kernel)) (.one (.done (by decide)))))))
  have hrest : [] ++ t.children p f ++ [] = [] ++ rest :: [] := by decide +kernel
  rw [← hfirst, hrest] at hpage
  have hquiet : ∀ {scan log}, Step p (fun _ _ _ => True)
      ⟨scan, [] ++ rest :: [], .waiting, log⟩ _ := fun {scan log} =>
    .answer (a := ⟨[], false⟩) (f := .quiet) trivial rfl rfl
  have hsteps := hpage.trans (.more hquiet (.more (.complete (by decide) (by decide +kernel)) (.more .store
    (.more .settle (.one (.done (by decide)))))))
  have hrelayed := (answers_tile oneAddress config none 0 1).1 hsteps (by decide +kernel)
  have ht : t ∈ launched _ := hrelayed.answered.mem_iff.2 (show t ∈ [t, rest] from List.mem_cons_self)
  have hrelay : Relay t [⟨⟨t, page⟩, f, rfl⟩, ⟨⟨rest, ⟨[], false⟩⟩, .quiet, rfl⟩] :=
    .next (x := ⟨⟨t, page⟩, f, rfl⟩) rfl (.last (x := ⟨⟨rest, ⟨[], false⟩⟩, .quiet, rfl⟩) rfl)
  exact ⟨_, _, hsteps, hrelayed, ht, rfl, hrelay, hrelayed.tiles ht hrelay, rfl, rfl⟩

end Run
end WatchWallet
