import WatchWallet.Schedule

/-!
# Schedule — how it ends

A schedule answers its tasks in an order that the delays decide.  It ends when no task is left, or at
the first answer that fails (`Ends`).  What every answer and every delay keeps, of the tasks that are
left, of what the answers have changed and of the other side, holds at this end (`run_ends`).
-/

namespace WatchWallet.Schedule

variable {σ τ ρ ε : Type}

/-- No task costs more than several together. -/
theorem cost_le_costOf {cost : τ → Nat} {t : τ} {ts : List τ} (h : t ∈ ts) :
    cost t ≤ costOf cost ts := by
  obtain ⟨before, after, rfl⟩ := List.append_of_mem h
  rw [costOf_append, costOf]
  omega

theorem eq_nil_of_split? {jobs : List (Job τ)} (h : split? jobs = none) : jobs = [] := by
  cases jobs with
  | nil => rfl
  | cons j js =>
      simp only [split?] at h
      split at h
      · cases h
      · split at h <;> cases h

/-- Only the poll and the state of a job change while its answer takes its time. -/
theorem map_task_wait (before after : List (Job τ)) (job : Job τ) (poll : Nat) (isOut : Bool) :
    (before ++ { job with poll, isOut } :: after).map (·.task) =
      (before ++ job :: after).map (·.task) := by
  simp

theorem map_task_follow (before after : List (Job τ)) (tasks : List τ) (poll : Nat) :
    (before ++ tasks.map (fresh poll) ++ after).map (·.task) =
      before.map (·.task) ++ tasks ++ after.map (·.task) := by
  simp [Function.comp_def, fresh]

/-- What the next job comes to. -/
theorem run_of_split? (service : Service σ τ ρ ε) {jobs before after : List (Job τ)} {job : Job τ}
    (h : split? jobs = some (before, job, after)) (r : ρ) (s : σ) :
    run service jobs r s =
      match if job.isOut then (0, s) else service.delay s with
      | (0, s) =>
        match service.answer job.task r s with
        | (.error e, s) => (.error e, r, s)
        | (.ok (r, tasks), s) =>
          run service (before ++ tasks.map (fresh job.poll) ++ after) r s
      | (n + 1, s) =>
        run service (before ++ { job with poll := job.poll + (n + 1), isOut := true } :: after)
          r s := by
  rw [run]
  split
  · rename_i hnone
    cases h.symm.trans hnone
  · rename_i hsome
    cases h.symm.trans hsome
    split
    · split <;> simp_all
    · simp_all

/-- The end of a schedule: no task is left, or the answer to one of those that are left has failed and
changed nothing but the other side. -/
inductive Ends (service : Service σ τ ρ ε) (P : List τ → ρ → σ → Prop) :
    Except ε Unit × ρ × σ → Prop where
  | done {r : ρ} {s : σ} (h : P [] r s) : Ends service P (.ok (), r, s)
  | failed {left : List τ} {t : τ} {r : ρ} {s s' : σ} {e : ε} (h : P left r s) (hmem : t ∈ left)
      (hfail : service.answer t r s = (.error e, s')) : Ends service P (.error e, r, s')

/-- A job that has started takes no more time; the others ask for their delays. -/
theorem keep_wait (service : Service σ τ ρ ε) {Q : σ → Prop}
    (hdelay : ∀ {s}, Q s → Q (service.delay s).2) {isOut : Bool} {n : Nat} {s s₁ : σ}
    (h : (if isOut then (0, s) else service.delay s) = (n, s₁)) (hs : Q s) : Q s₁ := by
  split at h
  · cases h
    exact hs
  · have hkept := hdelay hs
    rwa [h] at hkept

/-- **What the answers and the delays keep holds at the end.** -/
theorem run_ends (service : Service σ τ ρ ε) {P : List τ → ρ → σ → Prop}
    (hdelay : ∀ {tasks r s}, P tasks r s → P tasks r (service.delay s).2)
    (hanswer : ∀ {before t after r s r' tasks s'}, P (before ++ t :: after) r s →
      service.answer t r s = (.ok (r', tasks), s') → P (before ++ tasks ++ after) r' s')
    (jobs : List (Job τ)) (r : ρ) (s : σ) (h : P (jobs.map (·.task)) r s) :
    Ends service P (run service jobs r s) := by
  induction jobs, r, s using run.induct service with
  | case1 jobs r s hsplit =>
      obtain rfl := eq_nil_of_split? hsplit
      rw [show run service [] r s = (.ok (), r, s) by simp [run, split?]]
      exact .done h
  | case2 jobs r s before job after hsplit s₁ hwait e s₂ hfail =>
      rw [dite_eq_ite] at hwait
      simp only [run_of_split? service hsplit, hwait, hfail]
      refine .failed (keep_wait service hdelay hwait h) ?_ hfail
      exact List.mem_map_of_mem (eq_of_split? hsplit ▸ List.mem_append_right _ List.mem_cons_self)
  | case3 jobs r s before job after hsplit s₁ hwait r₁ tasks s₂ hok ih =>
      rw [dite_eq_ite] at hwait
      simp only [run_of_split? service hsplit, hwait, hok]
      apply ih
      rw [map_task_follow]
      rw [eq_of_split? hsplit, List.map_append, List.map_cons] at h
      exact hanswer (keep_wait service hdelay hwait h) hok
  | case4 jobs r s before job after hsplit n s₁ hwait ih =>
      rw [dite_eq_ite] at hwait
      simp only [run_of_split? service hsplit, hwait]
      apply ih
      rw [map_task_wait, ← eq_of_split? hsplit]
      exact keep_wait service hdelay hwait h

/-- **What the other side remembers besides makes no difference.**  A service whose other side tells a
state of another service, and acts as that one does there, runs as the other does. -/
theorem run_sim {σ' : Type} (service : Service σ τ ρ ε) (service' : Service σ' τ ρ ε) (π : σ' → σ)
    (hdelay : ∀ s, Prod.map id π (service'.delay s) = service.delay (π s))
    (hanswer : ∀ t r s, Prod.map id π (service'.answer t r s) = service.answer t r (π s))
    (jobs : List (Job τ)) (r : ρ) (s : σ') :
    Prod.map id (Prod.map id π) (run service' jobs r s) = run service jobs r (π s) := by
  -- a job that is out waits no more, and one that goes out now waits alike on both sides
  have hwait : ∀ (job : Job τ) {s s₁ : σ'} {n : Nat},
      (if job.isOut then (0, s) else service'.delay s) = (n, s₁) →
      (if job.isOut then (0, π s) else service.delay (π s)) = (n, π s₁) := by
    intro job s s₁ n h
    cases hout : job.isOut with
    | true =>
        rw [hout, if_pos rfl] at h
        cases h
        rfl
    | false =>
        rw [hout, if_neg Bool.false_ne_true] at h
        rw [if_neg Bool.false_ne_true, ← hdelay, h]
        rfl
  induction jobs, r, s using run.induct service' with
  | case1 jobs r s hsplit =>
      obtain rfl := eq_nil_of_split? hsplit
      simp [run, split?]
  | case2 jobs r s before job after hsplit s₁ hout e s₂ hfail =>
      rw [dite_eq_ite] at hout
      have hfail' : service.answer job.task r (π s₁) = (.error e, π s₂) := by
        rw [← hanswer, hfail]
        rfl
      simp only [run_of_split? _ hsplit, hout, hfail, hwait job hout, hfail', Prod.map, id]
  | case3 jobs r s before job after hsplit s₁ hout r₁ tasks s₂ hok ih =>
      rw [dite_eq_ite] at hout
      have hok' : service.answer job.task r (π s₁) = (.ok (r₁, tasks), π s₂) := by
        rw [← hanswer, hok]
        rfl
      simp only [run_of_split? _ hsplit, hout, hok, hwait job hout, hok', ih]
  | case4 jobs r s before job after hsplit n s₁ hout ih =>
      rw [dite_eq_ite] at hout
      simp only [run_of_split? _ hsplit, hout, hwait job hout, ih]

end WatchWallet.Schedule
