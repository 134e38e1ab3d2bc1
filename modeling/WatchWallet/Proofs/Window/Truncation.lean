import WatchWallet.Proofs.Window.Completeness
import WatchWallet.Proofs.Window.Exchanges

/-!
# Window — Truncation

What a cut answer retires.  An answer that is not cut tells everything at the heights of its task; a
cut one does so below its highest block, and the rest is left to a continuation (`Task.passedOn`).  But
whether an answer is cut is looked at only when it confirms something: a cut answer that confirms
nothing is taken in as if it were whole (`Window.synchronize_heeded`).  So a task reports on a height
either with good reason or after such an answer (`Run.report_justified_iff`), and a window that was
answered with nothing but unconfirmed transactions succeeds (`Window.synchronize_unconfirmedPage`).
-/

namespace WatchWallet

open Window (threeBlocks)

/-- The answer tells everything at a height. -/
def Answer.Proves (a : Answer) (h : Nat) : Prop :=
  a.truncated = false ∨ ∃ high, a.highest? = some high ∧ h < high.height.toNat

namespace Task

variable {p : Plan} {t : Task} {a : Answer} {f : Finding} {h : Nat}

/-- The task asks for the addresses of another one once more, up to the same end. -/
structure Continues (c t : Task) : Prop where
  chain : c.chain = t.chain
  addresses : c.batch.addresses = t.batch.addresses
  hi : c.hi = t.hi

/-- **What an answer with a confirmed transaction does not prove is passed on.** -/
theorem passedOn (hlive : t.isLive = true) (hjudge : t.judge a = .ok f) (hcover : t.covers h = true)
    (hblocks : a.blocks ≠ []) :
    a.Proves h ∨ ∃ c ∈ t.children p f, c.Continues t ∧ c.covers h = true := by
  cases f with
  | quiet => exact absurd (judge_eq_quiet_iff.1 hjudge) hblocks
  | active low high lastFull =>
      obtain ⟨-, hhigh, -, ⟨hwhole, -⟩ | ⟨-, hne, rfl⟩⟩ := judge_eq_active_iff.1 hjudge
      · exact .inl (.inl hwhole)
      by_cases hbelow : h < high.height.toNat
      · exact .inl (.inr ⟨high, hhigh, hbelow⟩)
      -- from the highest block on, the continuation takes over
      obtain ⟨hlo, hhi⟩ := covers_iff.1 hcover
      have hend : high.height.toNat - 1 + 1 ≤ h ∧ high.height.toNat - 1 < t.hi := by
        have := (le_of_judge hjudge).2
        omega
      refine .inr ⟨t.continuation high (high.height.toNat - 1), ?_, ⟨rfl, rfl, rfl⟩,
        covers_iff.2 ⟨hend.1, hhi⟩⟩
      exact mem_children_active.2 ⟨.inr ⟨hend.2, rfl⟩,
        isLive_iff.2 ⟨(isLive_iff.1 hlive).1, Nat.le_trans hend.1 hhi⟩⟩

/-- **A cut answer that confirms nothing proves nothing, and nothing is passed on.**  After any other
answer, what is not proved is passed on. -/
theorem passedOn_iff (hlive : t.isLive = true) (hjudge : t.judge a = .ok f)
    (hcover : t.covers h = true) :
    (a.Proves h ∨ ∃ c ∈ t.children p f, c.Continues t ∧ c.covers h = true) ↔
      (a.truncated = true → a.blocks ≠ []) := by
  constructor
  · intro hgood hcut hnil
    obtain rfl : f = .quiet := Except.ok.inj (hjudge.symm.trans (judge_eq_quiet_iff.2 hnil))
    rcases hgood with (hwhole | ⟨high, hhigh, -⟩) | ⟨c, hc, -⟩
    · rw [hcut] at hwhole
      cases hwhole
    · rw [Answer.highest?_eq_none_iff.2 hnil] at hhigh
      cases hhigh
    · cases hc
  · intro hcut
    cases htruncated : a.truncated with
    | false => exact .inl (.inl htruncated)
    | true => exact passedOn hlive hjudge hcover (hcut htruncated)

end Task

/-! ### The flag that is not looked at -/

/-- The answer as it is heeded: not cut, if it confirms nothing. -/
def Answer.heeded (a : Answer) : Answer :=
  ⟨a.transactions, a.truncated && !a.blocks.isEmpty⟩

/-- The explorer with its answers as they are heeded. -/
def Explorer.heeded {σ : Type} (explorer : Explorer σ) : Explorer σ :=
  { explorer with
    transactions addresses start s :=
      ((explorer.transactions addresses start s).1.map Answer.heeded,
        (explorer.transactions addresses start s).2) }

/-- A task takes in an answer that confirms nothing as if it were whole. -/
theorem Scan.absorb_heeded (scan : Scan) (p : Plan) (t : Task) (a : Answer) :
    scan.absorb p t a.heeded = scan.absorb p t a := by
  by_cases hnil : a.blocks = []
  · have hquiet : t.judge a = .ok .quiet := Task.judge_eq_quiet_iff.2 hnil
    have hquiet' : t.judge a.heeded = .ok .quiet := Task.judge_eq_quiet_iff.2 hnil
    unfold absorb Task.take
    rw [hquiet, hquiet']
    rfl
  · have hsame : a.heeded = a := by
      rw [Answer.heeded, List.isEmpty_eq_false_iff.2 hnil, Bool.not_false, Bool.and_true]
    rw [hsame]

/-- **A window does not see whether an answer that confirms nothing is cut.** -/
theorem Window.synchronize_heeded {σ : Type} (w : Window) (explorer : Explorer σ)
    (config : SyncConfig) (first : Option String) (lo hi : Nat) (s : σ) :
    w.synchronize explorer.heeded config first lo hi s =
      w.synchronize explorer config first lo hi s := by
  have hservice : Scan.service explorer.heeded (w.plan config) =
      Scan.service explorer (w.plan config) := by
    have hask : Scan.ask explorer.heeded (w.plan config) = Scan.ask explorer (w.plan config) := by
      funext t scan s
      simp only [Scan.ask, Explorer.heeded]
      rcases explorer.transactions t.batch.addresses t.start s with ⟨_ | a, s'⟩
      · rfl
      · simp only [Except.map, Scan.absorb_heeded]
    simp only [Scan.service, hask]
    rfl
  unfold synchronize
  rw [hservice]

/-- An explorer with a page of one transaction lists the unconfirmed ones first: the window succeeds, and
the payment is not stored. -/
theorem Window.synchronize_unconfirmedPage :
    let explorer : Explorer Unit :=
      { threeBlocks.explorer 1 with
        transactions _ _ s := (.ok ⟨[{ Run.onePayment with block := none }], true⟩, s) }
    let (result, w, _) := Run.oneAddress.synchronize explorer ⟨0, 1, 1, 1, "g"⟩ (some "g") 0 2 ()
    result = .ok { requests := 1, received := 1, lo := 0, hi := 2 } ∧
      Journal.added .stable w.journal = [] ∧ threeBlocks.touching ["a"] 1 ≠ [] := by
  decide +kernel

/-! ### Who reports -/

/-- The task that is reporting. -/
def Stage.reporter? : Stage → Option Task
  | waiting => none
  | reporting t _ | storing t _ | settling t _ => some t

namespace Run

variable {p : Plan} {replies : Replies} {r r' : Run} {lo hi : Nat} {t : Task}

/-- The last answer in a log is this one to this task, and these tasks went out with it. -/
def LastHeard (t : Task) (a : Answer) (tasks : List Task) (log : List Move) : Prop :=
  ∃ before after, log = before ++ .answer t a tasks :: after ∧ after.filterMap Move.answered? = []

theorem LastHeard.concat {a : Answer} {tasks : List Task} {log : List Move}
    (h : LastHeard t a tasks log) {m : Move} (hm : m.answered? = none) :
    LastHeard t a tasks (log ++ [m]) := by
  obtain ⟨before, after, rfl, hafter⟩ := h
  exact ⟨before, after ++ [m], by simp, by simp [hafter, hm]⟩

theorem LastHeard.getLast?_answered {a : Answer} {tasks : List Task} {log : List Move}
    (h : LastHeard t a tasks log) : (log.filterMap Move.answered?).getLast? = some ⟨t, a⟩ := by
  obtain ⟨before, after, rfl, hafter⟩ := h
  simp [hafter, Move.answered?]

/-- The last answer is one to this task, which asked for something. -/
def Heard (p : Plan) (t : Task) (log : List Move) : Prop :=
  ∃ a f, LastHeard t a (t.children p f) log ∧ t.judge a = .ok f ∧ t.isLive = true

/-- Only the task that took in the last answer reports, on heights that it asked for. -/
structure Reports (p : Plan) (r : Run) : Prop where
  live : ∀ t ∈ r.out, t.isLive = true
  stage : ∀ t ∈ r.stage.reporter?, Heard p t r.log
  log : ∀ {before t k}, before ++ [.report t k] <+: r.log → Heard p t before ∧ t.covers k = true

theorem Heard.concat {log : List Move} (h : Heard p t log) {m : Move} (hm : m.answered? = none) :
    Heard p t (log ++ [m]) := by
  obtain ⟨a, f, hlast, hjudge, hlive⟩ := h
  exact ⟨a, f, hlast.concat hm, hjudge, hlive⟩

/-- A report that ends a part of a log ends it before any other move. -/
theorem prefix_of_concat {before log : List Move} {m : Move} {k : Nat}
    (h : before ++ [.report t k] <+: log ++ [m]) (hm : m ≠ .report t k) :
    before ++ [.report t k] <+: log := by
  rcases List.prefix_concat_iff.1 h with heq | h
  · exact absurd (List.cons.inj (List.append_inj_right' heq rfl)).1.symm hm
  · exact h

/-- Only an answer lets a task report, and then it is that task. -/
theorem Reports.step (hr : Reports p r) (hs : Sound lo hi r) (h : Step p replies r r') :
    Reports p r' := by
  cases h with
  | @answer scan before after t log a f _ hjudge =>
      -- the task that was answered reports next; its children wait in its place
      have ht := hr.live t (List.mem_append_right _ List.mem_cons_self)
      refine ⟨fun c hc => ?_, fun c hc => ?_, fun {log' c k} hprefix => ?_⟩
      · rw [List.append_assoc, List.mem_append, List.mem_append] at hc
        rcases hc with hc | hc | hc
        · exact hr.live c (List.mem_append_left _ hc)
        · exact Task.isLive_of_mem_children hc
        · exact hr.live c (List.mem_append_right _ (List.mem_cons_of_mem _ hc))
      · obtain rfl := Option.some.inj hc
        exact ⟨a, f, ⟨log, [], rfl, rfl⟩, hjudge, ht⟩
      · exact hr.log (prefix_of_concat hprefix nofun)
  | @report scan out t k log hle _ | @complete scan out t k log hle _ =>
      have hheard : Heard p t log := hr.stage t rfl
      obtain ⟨-, hlo, -⟩ := hs.stage_within
      refine ⟨hr.live, fun c hc => ?_, fun {log' c j} hprefix => ?_⟩
      · obtain rfl := Option.some.inj hc
        exact hheard.concat rfl
      -- the only report that is new is the one of this step
      · rcases List.prefix_concat_iff.1 hprefix with heq | hprefix
        · obtain ⟨rfl, hlast⟩ := List.append_inj' heq rfl
          cases hlast
          exact ⟨hheard, Task.covers_iff.2 ⟨hlo, hle⟩⟩
        · exact hr.log hprefix
  | @store scan out t k log | @settle scan out t k log =>
      refine ⟨hr.live, fun c hc => ?_, fun {log' c j} hprefix => ?_⟩
      · obtain rfl := Option.some.inj hc
        exact (hr.stage t rfl).concat rfl
      · exact hr.log (prefix_of_concat hprefix nofun)
  | done _ => exact ⟨hr.live, nofun, hr.log⟩

variable {w : Window} {config : SyncConfig} {first : Option String}

theorem reports_start : Reports p (start w config first lo hi) := by
  refine ⟨fun t ht => (List.mem_filter.1 ht).2, nofun, fun {before t k} hprefix => ?_⟩
  have hnil : before ++ [.report t k] <+: [] :=
    prefix_of_concat (m := .launch (w.bootstrap config first lo hi)) hprefix nofun
  exact absurd (List.prefix_nil.1 hnil) (List.append_ne_nil_of_right_ne_nil _ (List.cons_ne_nil _ _))

theorem reports_of_steps (h : Steps (w.plan config) replies (start w config first lo hi) r) :
    Reports (w.plan config) r :=
  (h.keep (P := fun r => Reports (w.plan config) r ∧ Sound lo hi r)
    (fun hr hstep => ⟨hr.1.step hr.2 hstep, hr.2.step hstep⟩)
    ⟨reports_start, sound_start w config first lo hi⟩).1

/-- **When a report is justified.**  In every run, a task reports on a height that it asked for, after
its answer and before any other one.  Unless this answer is cut and confirms nothing, it proves the
height, or a task that asks for the same addresses went out with it and is registered on the height.
A synchronization is such a run; it fails with a violation when an answer cannot be taken in. -/
theorem report_justified_iff :
    (∀ {r}, Steps (w.plan config) replies (start w config first lo hi) r →
      ∀ {before t k}, before ++ [.report t k] <+: r.log →
        ∃ a tasks, LastHeard t a tasks before ∧ t.covers k = true ∧
          ((a.Proves k ∨ ∃ c ∈ tasks, c.Continues t ∧ c.covers k = true) ↔
            (a.truncated = true → a.blocks ≠ []))) ∧
    ∀ {σ} {explorer : Explorer σ}, explorer.Keeps replies → ∀ {result w' s s'},
      w.synchronize explorer config first lo hi s = (result, w', s') →
      hi < lo ∧ w' = w ∨
      ∃ exchanges r, w.synchronize explorer.recorded config first lo hi (s, []) =
          (result, w', s', exchanges) ∧
        Steps (w.plan config) replies (start w config first lo hi) r ∧ w.Leaves result r.scan w' ∧
        r.Concludes w config lo hi result exchanges := by
  refine ⟨fun {r} hsteps {before t k} hprefix => ?_, fun {σ explorer} hkeeps {result w' s s'} h => ?_⟩
  · obtain ⟨⟨a, f, hlast, hjudge, hlive⟩, hcover⟩ := (reports_of_steps hsteps).log hprefix
    exact ⟨a, t.children (w.plan config) f, hlast, hcover, Task.passedOn_iff hlive hjudge hcover⟩
  · rcases Nat.lt_or_ge hi lo with hlt | hle
    · rw [Window.synchronize_of_lt w explorer config first hlt] at h
      cases h
      exact .inl ⟨hlt, rfl⟩
    · obtain ⟨exchanges, hrecorded, r, hsteps, -, hleaves, hconcludes⟩ :=
        exchanges_of_synchronize hkeeps hle h
      exact .inr ⟨exchanges, r, hrecorded, hsteps, hleaves, hconcludes⟩

/-- The rest of a cut page is asked for, and that page confirms nothing: the height above the first
payment is complete, and nothing has told what is there. -/
theorem report_justified_iff_cutPages :
    let config : SyncConfig := ⟨0, 1, 1, 1, "g"⟩
    let rest : Task := ⟨.receive, ⟨["a"], 0, .regular⟩, some "h", 1, 1⟩
    ∃ r before a tasks,
      Steps (oneAddress.plan config) (fun _ _ _ => True) (start oneAddress config none 0 1) r ∧
      before ++ [.report rest 1] <+: r.log ∧ LastHeard rest a tasks before ∧ a.truncated = true ∧
      ¬(a.Proves 1 ∨ ∃ c ∈ tasks, c.Continues rest ∧ c.covers 1 = true) ∧
      r.scan.tracker.isComplete 1 = true := by
  intro config rest
  let p := oneAddress.plan config
  let t : Task := ⟨.receive, ⟨["a"], 0, .gap⟩, none, 0, 1⟩
  let page : Answer :=
    ⟨[onePayment, { onePayment with hash := "u", block := some ⟨"h", 1, .epoch⟩ }], true⟩
  let f : Finding := .active ⟨"g", 0, .epoch⟩ ⟨"h", 1, .epoch⟩ 0
  have hfirst : oneAddress.bootstrap config none 0 1 = [] ++ t :: [] := by decide +kernel
  have hanswer : Step p (fun _ _ _ => True) ⟨(oneAddress.scan 0 1).launch ([] ++ t :: []),
      [] ++ t :: [], .waiting, [.launch ([] ++ t :: [])]⟩ _ :=
    .answer (a := page) (f := f) trivial rfl rfl
  have hpage := Steps.more hanswer (.more (.complete (by decide) (by decide +kernel)) (.more .store
    (.more .settle (.more (.report (by decide) (by decide +kernel)) (.one (.done (by decide)))))))
  have hrest : [] ++ t.children p f ++ [] = [] ++ rest :: [] := by decide +kernel
  rw [← hfirst, hrest] at hpage
  have hquiet : ∀ {scan log}, Step p (fun _ _ _ => True)
      ⟨scan, [] ++ rest :: [], .waiting, log⟩ _ := fun {scan log} =>
    .answer (a := ⟨[{ onePayment with block := none }], true⟩) (f := .quiet) trivial rfl rfl
  have hsteps := hpage.trans (.more hquiet (.one (.complete (by decide) (by decide +kernel))))
  obtain ⟨a, tasks, hlast, hcover, hiff⟩ :=
    report_justified_iff.1 hsteps (t := rest) (k := 1) (List.prefix_refl _)
  obtain rfl : ⟨[{ onePayment with block := none }], true⟩ = a :=
    congrArg Answered.answer (Option.some.inj hlast.getLast?_answered)
  exact ⟨_, _, _, tasks, hsteps, List.prefix_refl _, hlast, rfl,
    fun hgood => hiff.1 hgood rfl rfl, by decide +kernel⟩

end Run
end WatchWallet
