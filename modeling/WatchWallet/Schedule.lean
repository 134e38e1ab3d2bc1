/-!
# Schedule

Requests that are out at the same time, and the order of their answers.  Jobs stand in a list that
is polled again and again; a poll looks at the unfinished jobs in order.  A job starts in the first
poll that looks at it, and its answer comes a number of polls later, at once if that number is zero.
The jobs that follow from an answer take the place of its job and start in the same poll.  The first
failure ends everything.
-/

namespace WatchWallet.Schedule

variable {τ : Type}

/-- A job in the list. -/
structure Job (τ : Type) where
  task : τ
  /-- The poll in which the job starts or is answered. -/
  poll : Nat
  /-- Whether the job has started. -/
  isOut : Bool

/-- The cost of several tasks together. -/
def costOf (cost : τ → Nat) : List τ → Nat
  | [] => 0
  | t :: ts => cost t + costOf cost ts

theorem costOf_append (cost : τ → Nat) (ts us : List τ) :
    costOf cost (ts ++ us) = costOf cost ts + costOf cost us := by
  induction ts with
  | nil => simp [costOf]
  | cons t ts ih => simp only [List.cons_append, costOf, ih, Nat.add_assoc]

theorem costOf_filter_le (cost : τ → Nat) (q : τ → Bool) (ts : List τ) :
    costOf cost (ts.filter q) ≤ costOf cost ts := by
  induction ts with
  | nil => exact Nat.le_refl _
  | cons t ts ih =>
    rw [List.filter_cons]
    split <;> simp only [costOf] <;> omega

theorem costOf_eq_of_forall {cost : τ → Nat} {k : Nat} {ts : List τ} (h : ∀ t ∈ ts, cost t = k) :
    costOf cost ts = ts.length * k := by
  induction ts with
  | nil => simp [costOf]
  | cons t ts ih =>
    rw [costOf, h t List.mem_cons_self, ih fun u hu => h u (List.mem_cons_of_mem _ hu),
      List.length_cons, Nat.succ_mul, Nat.add_comm]

theorem length_le_costOf {cost : τ → Nat} {ts : List τ} (h : ∀ t ∈ ts, 0 < cost t) :
    ts.length ≤ costOf cost ts := by
  induction ts with
  | nil => exact Nat.le_refl _
  | cons t ts ih =>
    have hpos := h t List.mem_cons_self
    have hle := ih fun u hu => h u (List.mem_cons_of_mem _ hu)
    simp only [List.length_cons, costOf]
    omega

/-- Who answers the jobs.  `ρ` is what the answers change, `σ` the state of the other side.  Every
answer costs something, and more than the jobs that follow from it together, so every run ends. -/
structure Service (σ τ ρ ε : Type) where
  /-- The number of polls that the next answer takes. -/
  delay : σ → Nat × σ
  answer : τ → ρ → σ → Except ε (ρ × List τ) × σ
  cost : τ → Nat
  cost_pos : ∀ t, 0 < cost t
  cost_answer : ∀ {t r s r' ts s'}, answer t r s = (.ok (r', ts), s') → costOf cost ts < cost t

variable {σ ρ ε : Type}

/-- The job that acts next, with the jobs before and after it: the first one of those with the
lowest poll. -/
def split? : List (Job τ) → Option (List (Job τ) × Job τ × List (Job τ))
  | [] => none
  | j :: js =>
    match split? js with
    | none => some ([], j, js)
    | some (before, next, after) =>
      if j.poll ≤ next.poll then some ([], j, js) else some (j :: before, next, after)

theorem eq_of_split? {jobs before after : List (Job τ)} {job : Job τ}
    (h : split? jobs = some (before, job, after)) : jobs = before ++ job :: after := by
  induction jobs generalizing before job after with
  | nil => simp [split?] at h
  | cons j js ih =>
    simp only [split?] at h
    split at h
    · simp only [Option.some.injEq, Prod.mk.injEq] at h
      obtain ⟨rfl, rfl, rfl⟩ := h
      rfl
    · rename_i b n a hs
      split at h
      · simp only [Option.some.injEq, Prod.mk.injEq] at h
        obtain ⟨rfl, rfl, rfl⟩ := h
        rfl
      · simp only [Option.some.injEq, Prod.mk.injEq] at h
        obtain ⟨rfl, rfl, rfl⟩ := h
        rw [ih hs, List.cons_append]

/-- A job that has not started. -/
def fresh (poll : Nat) (task : τ) : Job τ := ⟨task, poll, false⟩

/-- What a job still costs, in halves, of which its start takes one. -/
def Job.left (cost : τ → Nat) (j : Job τ) : Nat :=
  2 * cost j.task - if j.isOut then 1 else 0

theorem costOf_left_fresh (cost : τ → Nat) (poll : Nat) (ts : List τ) :
    costOf (Job.left cost) (ts.map (fresh poll)) = 2 * costOf cost ts := by
  induction ts with
  | nil => rfl
  | cons t ts ih =>
    rw [List.map_cons, costOf, ih, costOf, Nat.mul_add]
    rfl

/-- Runs the jobs until none is left or one fails. -/
def run (service : Service σ τ ρ ε) (jobs : List (Job τ)) (r : ρ) (s : σ) :
    Except ε Unit × ρ × σ :=
  match _hsplit : split? jobs with
  | none => (.ok (), r, s)
  | some (before, job, after) =>
    -- a job goes out when it is first polled, and is answered there or in a later poll
    match _hdelay : if job.isOut then (0, s) else service.delay s with
    | (0, s) =>
      match _hanswer : service.answer job.task r s with
      | (.error e, s) => (.error e, r, s)
      | (.ok (r, tasks), s) =>
        run service (before ++ tasks.map (fresh job.poll) ++ after) r s
    | (n + 1, s) =>
      run service (before ++ { job with poll := job.poll + (n + 1), isOut := true } :: after) r s
termination_by costOf (Job.left service.cost) jobs
decreasing_by
  · have hlt := service.cost_answer _hanswer
    have hleft : 2 * service.cost job.task - 1 ≤ job.left service.cost := by
      unfold Job.left
      split <;> omega
    rw [eq_of_split? _hsplit]
    simp only [costOf_append, costOf, costOf_left_fresh]
    omega
  · have hout : job.isOut = false := by
      cases hj : job.isOut with
      | false => rfl
      | true => simp [hj] at _hdelay
    have hpos := service.cost_pos job.task
    rw [eq_of_split? _hsplit]
    simp only [costOf_append, costOf, Job.left, hout, if_true, Bool.false_eq_true, if_false]
    omega

/-- Runs tasks that start in the first poll. -/
def runAll (service : Service σ τ ρ ε) (tasks : List τ) (r : ρ) (s : σ) : Except ε Unit × ρ × σ :=
  run service (tasks.map (fresh 0)) r s

end WatchWallet.Schedule
