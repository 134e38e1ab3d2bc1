import WatchWallet.Proofs.Store.Blocks
import WatchWallet.Proofs.Window.Run

/-!
# Window — Exchanges

What a synchronization asks its explorer about transactions, and what it hears.  An explorer with a
record (`Explorer.recorded`) writes down every request with its reply, and a synchronization with it
is the same (`Window.synchronize_recorded`).  The record holds the answers that the run takes in, one
after the other, and at its end the reply that makes the run fail, if there is one
(`Run.exchanges_of_synchronize`).
-/

namespace WatchWallet

/-- A request about transactions with the reply to it. -/
structure Exchange where
  addresses : List String
  start : Option String
  reply : Except ExplorerError Answer

/-- The request of a task that was answered, with its answer. -/
def Answered.exchange (x : Answered) : Exchange :=
  ⟨x.task.batch.addresses, x.task.start, .ok x.answer⟩

/-- Why a task cannot take in a reply. -/
def Task.failure? (p : Plan) (t : Task) : Except ExplorerError Answer → Option Stop
  | .error e => some (.failed (.explorer e))
  | .ok a =>
    match t.take p a with
    | .error stop => some stop
    | .ok _ => none

/-- An answer that is judged fails its task only when the next gap batch overflows. -/
theorem Task.failure?_of_judge {p : Plan} {t : Task} {a : Answer} {f : Finding}
    (hjudge : t.judge a = .ok f) :
    t.failure? p (.ok a) = if t.overflows p f then some .overflow else none := by
  cases hover : t.overflows p f <;> simp [failure?, take, hjudge, hover]

/-- A task overflows at an answer that is judged. -/
theorem Task.exists_overflows {p : Plan} {t : Task} {reply : Except ExplorerError Answer}
    (h : t.failure? p reply = some .overflow) : ∃ f, t.overflows p f = true := by
  cases reply with
  | error e => cases h
  | ok a =>
      cases hjudge : t.judge a with
      | error v =>
          rw [failure?, take, hjudge] at h
          cases h
      | ok f =>
          rw [failure?_of_judge hjudge] at h
          exact ⟨f, by_contra fun hfits => by simp [hfits] at h⟩

variable {σ : Type}

/-- The same explorer, with a record of the requests about transactions and the replies to them. -/
def Explorer.recorded (explorer : Explorer σ) : Explorer (σ × List Exchange) where
  delay s := ((explorer.delay s.1).1, (explorer.delay s.1).2, s.2)
  transactions addresses start s :=
    let said := explorer.transactions addresses start s.1
    (said.1, said.2, s.2 ++ [⟨addresses, start, said.1⟩])
  tip s := ((explorer.tip s.1).1, (explorer.tip s.1).2, s.2)
  block h s := ((explorer.block h s.1).1, (explorer.block h s.1).2, s.2)
  pending addresses s := ((explorer.pending addresses s.1).1, (explorer.pending addresses s.1).2, s.2)

theorem Explorer.Keeps.recorded {explorer : Explorer σ} {replies : Replies}
    (h : explorer.Keeps replies) : explorer.recorded.Keeps replies := by
  intro addresses start s a s' hasked
  have hreply : (explorer.recorded.transactions addresses start s).1 = .ok a :=
    congrArg Prod.fst hasked
  exact h (Prod.ext hreply rfl)

/-- The record holds the answers that were taken in. -/
theorem Explorer.tells_recorded (explorer : Explorer σ) :
    explorer.recorded.Tells fun answered s => s.2 = answered.map Answered.exchange where
  delay h := h
  answer {answered s t a s'} h hasked := by
    have hreply : (explorer.transactions t.batch.addresses t.start s.1).1 = .ok a :=
      congrArg Prod.fst hasked
    have hrecord : s.2 ++ [⟨t.batch.addresses, t.start,
        (explorer.transactions t.batch.addresses t.start s.1).1⟩] = s'.2 :=
      congrArg (·.2.2) hasked
    rw [← hrecord, h, hreply, List.map_append]
    rfl

/-- A request fails for what is wrong with its reply. -/
theorem Scan.failure?_of_ask {explorer : Explorer σ} {p : Plan} {t : Task} {scan : Scan} {s s' : σ}
    {stop : Stop} (h : Scan.ask explorer p t scan s = (.error stop, s')) :
    explorer.transactions t.batch.addresses t.start s =
        ((explorer.transactions t.batch.addresses t.start s).1, s') ∧
      t.failure? p (explorer.transactions t.batch.addresses t.start s).1 = some stop := by
  unfold Scan.ask at h
  split at h
  · rename_i hasked
    cases h
    rw [hasked]
    exact ⟨rfl, rfl⟩
  · rename_i a s₁ hasked
    rw [hasked]
    unfold Scan.absorb at h
    cases htake : t.take p a with
    | ok f =>
        rw [htake] at h
        cases h
    | error _ =>
        rw [htake] at h
        cases h
        exact ⟨rfl, by rw [Task.failure?, htake]⟩

/-- **In memory only a reply or an overflow makes a synchronization fail**: it succeeds with what its
run counted, or its first batches cannot be derived, or a task that is still out cannot take in the
reply to it. -/
theorem Run.ends_in_memory {explorer : Explorer σ} {replies : Replies} (hkeeps : explorer.Keeps replies)
    {w w' : Window} {blocks : Blocks} (hstore : w.store = .memory blocks) {config : SyncConfig}
    {first : Option String} {lo hi : Nat} {s s' : σ} {result : Except Stop WindowStats}
    (hle : lo ≤ hi) (h : w.synchronize explorer config first lo hi s = (result, w', s')) :
    ∃ r, Steps (w.plan config) replies (start w config first lo hi) r ∧ r.stage = .waiting ∧
      w.Leaves result r.scan w' ∧
      (w.fits config = true ∧ r.out = [] ∧ result = .ok { r.scan.progress with lo, hi } ∨
        w.fits config = false ∧ result = .error .overflow ∨
        ∃ t ∈ r.out, ∃ before stop, t.failure? (w.plan config)
          (explorer.transactions t.batch.addresses t.start before).1 = some stop ∧
          result = .error stop) := by
  obtain ⟨r, joined, hsteps, hstage, hleaves, -, hends, hresult⟩ :=
    ends_of_synchronize hkeeps explorer.tells_true trivial hle h
  refine ⟨r, hsteps, hstage, hleaves, ?_⟩
  cases hends with
  | unfit hfits _ _ => exact .inr (.inl ⟨hfits, hresult⟩)
  | done hfits hout _ =>
      refine .inl ⟨hfits, hout, ?_⟩
      rw [hresult, (records_of_steps hsteps).store, hstore, BlockStore.foldl_add_memory]
      rfl
  | @failed t before _ stop hmem _ hfail =>
      exact .inr (.inr ⟨t, hmem, before, stop, (Scan.failure?_of_ask hfail).2, hresult⟩)

/-- A task is answered the same with a record. -/
theorem Scan.ask_recorded (explorer : Explorer σ) (p : Plan) (t : Task) (scan : Scan)
    (s : σ × List Exchange) :
    Prod.map id Prod.fst (ask explorer.recorded p t scan s) = ask explorer p t scan s.1 := by
  simp only [ask, Explorer.recorded]
  generalize explorer.transactions t.batch.addresses t.start s.1 = said
  obtain ⟨reply, s'⟩ := said
  cases reply <;> rfl

/-- What an explorer remembers besides makes no difference to a synchronization. -/
theorem Window.synchronize_sim {σ' : Type} (w : Window) {explorer : Explorer σ}
    {explorer' : Explorer σ'} (π : σ' → σ) (config : SyncConfig) (first : Option String) (lo hi : Nat)
    (hdelay : ∀ s, Prod.map id π (explorer'.delay s) = explorer.delay (π s))
    (hask : ∀ p t scan s, Prod.map id π (Scan.ask explorer' p t scan s) = Scan.ask explorer p t scan (π s))
    (s : σ') : Prod.map id (Prod.map id π) (w.synchronize explorer' config first lo hi s) =
      w.synchronize explorer config first lo hi (π s) := by
  have hran := Schedule.run_sim (Scan.service explorer (w.plan config))
    (Scan.service explorer' (w.plan config)) π hdelay (hask (w.plan config))
    ((w.bootstrap config first lo hi).map (Schedule.fresh 0))
    ((w.scan lo hi).launch (w.bootstrap config first lo hi)) s
  simp only [synchronize, Schedule.runAll, ← hran]
  generalize Schedule.run (Scan.service explorer' (w.plan config)) _ _ _ = ran
  obtain ⟨joined, scan, s'⟩ := ran
  split
  · rfl
  · split
    · rfl
    · dsimp only [Prod.map, id]
      split
      · rfl
      · rfl
      · split <;> rfl

/-- **The record changes nothing else.** -/
theorem Window.synchronize_recorded (w : Window) (explorer : Explorer σ) (config : SyncConfig)
    (first : Option String) (lo hi : Nat) (s : σ) (exchanges : List Exchange) :
    Prod.map id (Prod.map id Prod.fst)
        (w.synchronize explorer.recorded config first lo hi (s, exchanges)) =
      w.synchronize explorer config first lo hi s :=
  w.synchronize_sim Prod.fst config first lo hi (fun _ => rfl) (Scan.ask_recorded explorer)
    (s, exchanges)

/-- A record goes on after what it held before. -/
theorem Window.synchronize_recorded_append (w : Window) (explorer : Explorer σ) (config : SyncConfig)
    (first : Option String) (lo hi : Nat) (s : σ) (before : List Exchange) :
    w.synchronize explorer.recorded config first lo hi (s, before) =
      Prod.map id (Prod.map id (Prod.map id (before ++ ·)))
        (w.synchronize explorer.recorded config first lo hi (s, [])) := by
  have hask : ∀ p t scan s, Prod.map id (Prod.map id (before ++ ·))
      (Scan.ask explorer.recorded p t scan s) =
        Scan.ask explorer.recorded p t scan (Prod.map id (before ++ ·) s) := by
    intro p t scan s
    simp only [Scan.ask, Explorer.recorded, Prod.map_fst, Prod.map_snd, id, List.append_assoc]
    rcases explorer.transactions t.batch.addresses t.start s.1 with ⟨_ | _, s'⟩ <;> rfl
  have hsame := w.synchronize_sim (Prod.map id (before ++ ·)) config first lo hi (fun _ => rfl) hask
    (s, [])
  rw [hsame, Prod.map_apply, List.append_nil]
  rfl

/-- What a run and the record of its explorer come to: nothing was asked, every reply was taken in, or
all but the last one, which a task that is still out cannot take in. -/
inductive Run.Concludes (w : Window) (config : SyncConfig) (lo hi : Nat) (r : Run) :
    Except Stop WindowStats → List Exchange → Prop where
  | unfit (hfits : w.fits config = false) (hanswered : r.answered = []) :
      r.Concludes w config lo hi (.error .overflow) []
  | joined (hfits : w.fits config = true) (hout : r.out = []) : r.Concludes w config lo hi
      (((r.scan.store.flush w.disk).1.mapError .failed).map fun _ => { r.scan.progress with lo, hi })
      (r.answered.map Answered.exchange)
  | failed {t : Task} {reply : Except ExplorerError Answer} {stop : Stop} (hmem : t ∈ r.out)
      (hfail : t.failure? (w.plan config) reply = some stop) : r.Concludes w config lo hi (.error stop)
      (r.answered.map Answered.exchange ++ [⟨t.batch.addresses, t.start, reply⟩])

/-- The record and the journal of a synchronization are those of a run. -/
theorem Run.concludes_of_synchronize {explorer : Explorer σ} {replies : Replies}
    (hkeeps : explorer.Keeps replies) {w w' : Window} {config : SyncConfig} {first : Option String}
    {lo hi : Nat} {s s' : σ} {result : Except Stop WindowStats} {exchanges : List Exchange}
    (hle : lo ≤ hi)
    (h : w.synchronize explorer.recorded config first lo hi (s, []) = (result, w', s', exchanges)) :
    ∃ r, Steps (w.plan config) replies (start w config first lo hi) r ∧ r.stage = .waiting ∧
      w.Leaves result r.scan w' ∧ w'.journal = r.scan.journal ++ Window.closing w.kind result ∧
      r.Concludes w config lo hi result exchanges := by
  obtain ⟨r, joined, hsteps, hstage, hleaves, hjournal, hends, hresult⟩ :=
    ends_of_synchronize hkeeps.recorded explorer.tells_recorded rfl hle h
  refine ⟨r, hsteps, hstage, hleaves, hjournal, ?_⟩
  generalize hend : (s', exchanges) = end' at hends
  cases hends with
  | unfit hfits hanswered hrecord =>
      cases hend
      obtain rfl : exchanges = r.answered.map Answered.exchange := hrecord
      rw [hresult, hanswered]
      exact .unfit hfits hanswered
  | done hfits hout hrecord =>
      cases hend
      obtain rfl : exchanges = r.answered.map Answered.exchange := hrecord
      exact hresult ▸ .joined hfits hout
  | @failed t before _ stop hmem hrecord hfail =>
      cases hend
      obtain ⟨hasked, hfailure⟩ := Scan.failure?_of_ask hfail
      have hlast : before.2 ++ [⟨t.batch.addresses, t.start,
          (explorer.recorded.transactions t.batch.addresses t.start before).1⟩] = exchanges :=
        congrArg (fun said => said.2.2) hasked
      rw [← hlast, hrecord]
      exact hresult ▸ .failed hmem hfailure

/-- **The record of a synchronization is that of a run.** -/
theorem Run.exchanges_of_synchronize {explorer : Explorer σ} {replies : Replies}
    (hkeeps : explorer.Keeps replies) {w w' : Window} {config : SyncConfig} {first : Option String}
    {lo hi : Nat} {s s' : σ} {result : Except Stop WindowStats} (hle : lo ≤ hi)
    (h : w.synchronize explorer config first lo hi s = (result, w', s')) :
    ∃ exchanges, w.synchronize explorer.recorded config first lo hi (s, []) =
        (result, w', s', exchanges) ∧
      ∃ r, Steps (w.plan config) replies (start w config first lo hi) r ∧ r.stage = .waiting ∧
        w.Leaves result r.scan w' ∧ r.Concludes w config lo hi result exchanges := by
  have hsame := w.synchronize_recorded explorer config first lo hi s []
  rw [h] at hsame
  generalize hran : w.synchronize explorer.recorded config first lo hi (s, []) = ran at hsame
  obtain ⟨result, w', s', exchanges⟩ := ran
  cases hsame
  obtain ⟨r, hsteps, hstage, hleaves, -, hconcludes⟩ := concludes_of_synchronize hkeeps hle hran
  exact ⟨exchanges, rfl, r, hsteps, hstage, hleaves, hconcludes⟩

end WatchWallet
