import Mathlib.Data.List.Perm.Basic
import Mathlib.Tactic.Common
import WatchWallet.Proofs.Window.Run

/-!
# Window — Counts

The invariant of a run.  A height counts the tasks that are registered on it and have not reported
(`Sound.height`), and every task asks up to the end of the window.  So a height is complete only
when all heights below it are (`Sound.isComplete_of_le`), and a task that is still out asks for no
complete height.  Every step keeps the invariant, whatever the explorer answers (`Sound.step`).
-/

namespace WatchWallet

/-- The task that is reporting, if it still has to report on a height. -/
def Stage.unreported : Stage → Nat → List Task
  | waiting, _ => []
  | reporting t next, h => if next ≤ h ∧ h ≤ t.hi then [t] else []
  | storing t k, h | settling t k, h => if k < h ∧ h ≤ t.hi then [t] else []

/-- The reporting task and its place lie in the window. -/
def Stage.Within (lo hi : Nat) : Stage → Prop
  | waiting => True
  | reporting t next => lo ≤ t.lo ∧ t.lo ≤ next ∧ t.hi = hi
  | storing t k | settling t k => lo ≤ t.lo ∧ t.lo ≤ k ∧ k ≤ t.hi ∧ t.hi = hi

namespace Run

/-- The tasks that are registered on a height and have not reported on it. -/
def unreported (r : Run) (h : Nat) : List Task :=
  r.out.filter (Task.covers h) ++ r.stage.unreported h

/-- A height counts its unreported tasks until there are none; then it is complete. -/
def Counts (r : Run) (h : Nat) : Prop :=
  r.scan.tracker.state? h = some (.pending (r.unreported h).length) ∧
      (r.unreported h = [] → r.launched = []) ∨
    r.scan.tracker.isComplete h = true ∧ r.unreported h = [] ∧ r.launched ≠ []

/-- What holds in every state of a run on the heights from `lo` to `hi`. -/
structure Sound (lo hi : Nat) (r : Run) : Prop where
  out_within : ∀ t ∈ r.out, lo ≤ t.lo ∧ t.lo ≤ t.hi ∧ t.hi = hi
  stage_within : r.stage.Within lo hi
  outside : ∀ h, ¬ (lo ≤ h ∧ h ≤ hi) → r.scan.tracker.state? h = none
  height : ∀ h, lo ≤ h → h ≤ hi → r.Counts h
  /-- Who was registered on a height has reported on it or is unreported. -/
  ledger : ∀ h, (r.launched.filter (Task.covers h)).Perm (r.reportsOn h ++ r.unreported h)
  buckets : ∀ h, ∀ tx ∈ r.scan.buckets.get h, tx.height? = some h

variable {lo hi : Nat} {r r' : Run} {p : Plan} {replies : Replies}

/-! ### What the counts say -/

namespace Sound

theorem le_of_isComplete (hs : Sound lo hi r) {h : Nat}
    (hc : r.scan.tracker.isComplete h = true) : lo ≤ h ∧ h ≤ hi := by
  by_contra hout
  obtain ⟨s, hs', -⟩ := Tracker.isComplete_iff.1 hc
  rw [hs.outside h hout] at hs'
  cases hs'

/-- A complete height has nobody unreported. -/
theorem unreported_of_isComplete (hs : Sound lo hi r) {h : Nat}
    (hc : r.scan.tracker.isComplete h = true) : r.unreported h = [] ∧ r.launched ≠ [] := by
  obtain ⟨hlo, hhi⟩ := hs.le_of_isComplete hc
  rcases hs.height h hlo hhi with ⟨hp, -⟩ | ⟨-, hnil, hne⟩
  · obtain ⟨s, hs', hcomplete⟩ := Tracker.isComplete_iff.1 hc
    rw [hp] at hs'
    cases hs'
    cases hcomplete
  · exact ⟨hnil, hne⟩

/-- Every unreported task asks up to the end of the window. -/
theorem unreported_nil_of_le (hs : Sound lo hi r) {h h' : Nat} (hle : h' ≤ h) (hhi : h ≤ hi)
    (hnil : r.unreported h = []) : r.unreported h' = [] := by
  obtain ⟨hout, hstage⟩ := List.append_eq_nil_iff.1 hnil
  refine List.append_eq_nil_iff.2 ⟨?_, ?_⟩
  · refine List.filter_eq_nil_iff.2 fun t ht hcov => ?_
    have hlo : t.lo ≤ h' := (Task.covers_iff.1 hcov).1
    have hend : t.hi = hi := (hs.out_within t ht).2.2
    exact List.filter_eq_nil_iff.1 hout t ht (Task.covers_iff.2 ⟨by omega, by omega⟩)
  · have hwithin := hs.stage_within
    cases hst : r.stage with
    | waiting => rfl
    | reporting t next =>
        rw [hst] at hstage hwithin
        simp only [Stage.unreported, ite_eq_right_iff, reduceCtorEq, imp_false] at hstage ⊢
        obtain ⟨-, -, hend⟩ := hwithin
        omega
    | storing t k | settling t k =>
        rw [hst] at hstage hwithin
        simp only [Stage.unreported, ite_eq_right_iff, reduceCtorEq, imp_false] at hstage ⊢
        obtain ⟨-, -, -, hend⟩ := hwithin
        omega

/-- Below a complete height every height of the window is complete. -/
theorem isComplete_of_le (hs : Sound lo hi r) {h h' : Nat}
    (hc : r.scan.tracker.isComplete h = true) (hlo : lo ≤ h') (hle : h' ≤ h) :
    r.scan.tracker.isComplete h' = true := by
  obtain ⟨hnil, hne⟩ := hs.unreported_of_isComplete hc
  have hhi : h ≤ hi := (hs.le_of_isComplete hc).2
  rcases hs.height h' hlo (by omega) with ⟨-, hnone⟩ | ⟨hc', -⟩
  · exact absurd (hnone (hs.unreported_nil_of_le hle hhi hnil)) hne
  · exact hc'

/-- A task that is out, or still reports, asks for no complete height. -/
theorem not_isComplete_of_mem (hs : Sound lo hi r) {t : Task} {h : Nat}
    (ht : t ∈ r.unreported h) : r.scan.tracker.isComplete h = false := by
  cases hc : r.scan.tracker.isComplete h with
  | false => rfl
  | true =>
      rw [(hs.unreported_of_isComplete hc).1] at ht
      cases ht

/-- A height with an unreported task counts it. -/
theorem state?_of_mem (hs : Sound lo hi r) {t : Task} {h : Nat} (ht : t ∈ r.unreported h)
    (hlo : lo ≤ h) (hhi : h ≤ hi) :
    r.scan.tracker.state? h = some (.pending (r.unreported h).length) := by
  rcases hs.height h hlo hhi with ⟨hp, -⟩ | ⟨-, hnil, -⟩
  · exact hp
  · rw [hnil] at ht
    cases ht

end Sound

/-! ### Every step keeps the invariant -/

/-- Who is unreported on a height was registered. -/
theorem Sound.launched_ne_nil (hs : Sound lo hi r) {t : Task} {h : Nat} (ht : t ∈ r.unreported h) :
    r.launched ≠ [] := by
  intro hnil
  have hmem := (hs.ledger h).mem_iff.2 (List.mem_append_right _ ht)
  rw [hnil] at hmem
  cases hmem

/-- A task that is out is unreported on all its heights. -/
theorem mem_unreported_of_mem_out {t : Task} (ht : t ∈ r.out) {h : Nat} (hlo : t.lo ≤ h)
    (hhi : h ≤ t.hi) : t ∈ r.unreported h :=
  List.mem_append_left _ (List.mem_filter.2 ⟨ht, Task.covers_iff.2 ⟨hlo, hhi⟩⟩)

/-- What a height counts is a matter of its state, of who is unreported there, and of what was
registered. -/
theorem Counts.congr {h : Nat} (hc : r.Counts h)
    (hstate : r'.scan.tracker.state? h = r.scan.tracker.state? h)
    (hunreported : r'.unreported h = r.unreported h) (hlaunched : r'.launched = r.launched) :
    r'.Counts h := by
  unfold Counts Tracker.isComplete at hc ⊢
  rw [hstate, hunreported, hlaunched]
  exact hc

/-- An answered task reports next; the tasks that follow from its answer are out. -/
theorem unreported_answer (scan scan' : Scan) (before after kids : List Task) (t : Task)
    (log log' : List Move) (h : Nat) :
    (unreported ⟨scan', before ++ kids ++ after, .reporting t t.lo, log'⟩ h).Perm
      (unreported ⟨scan, before ++ t :: after, .waiting, log⟩ h ++
        kids.filter (Task.covers h)) := by
  rw [List.perm_iff_count]
  intro x
  by_cases hcov : t.lo ≤ h ∧ h ≤ t.hi
  · simp only [unreported, Stage.unreported, List.filter_append, List.filter_cons,
      Task.covers_iff.2 hcov, if_pos hcov, if_true, List.append_nil, List.count_append,
      List.count_cons, List.count_nil]
    omega
  · simp only [unreported, Stage.unreported, List.filter_append, List.filter_cons,
      mt Task.covers_iff.1 hcov, if_neg hcov, if_false, List.append_nil, List.count_append,
      Bool.false_eq_true]
    omega

/-- The tasks that follow from an answer ask for no complete height: the answered task would be
unreported there. -/
theorem Sound.filter_children_eq_nil {scan : Scan} {before after : List Task} {t : Task}
    {log : List Move} {a : Answer} {f : Finding} {h : Nat}
    (hs : Sound lo hi ⟨scan, before ++ t :: after, .waiting, log⟩) (hjudge : t.judge a = .ok f)
    (hc : scan.tracker.isComplete h = true) : (t.children p f).filter (Task.covers h) = [] := by
  refine List.filter_eq_nil_iff.2 fun c hmem hcov => ?_
  obtain ⟨hfrom, -, hto⟩ := Task.within_of_mem_children hjudge hmem
  obtain ⟨hlow, hhigh⟩ := Task.covers_iff.1 hcov
  have hnot := hs.not_isComplete_of_mem (mem_unreported_of_mem_out
    (List.mem_append_right _ List.mem_cons_self) (t := t) (h := h) (by omega) (by omega))
  exact Bool.false_ne_true (hnot.symm.trans hc)

/-- The tasks that follow from an answer are counted before the answered task reports. -/
theorem Sound.counts_answer {scan : Scan} {before after : List Task} {t : Task} {log : List Move}
    {a : Answer} {f : Finding} (hs : Sound lo hi ⟨scan, before ++ t :: after, .waiting, log⟩)
    (hjudge : t.judge a = .ok f) {h : Nat} (hlo : lo ≤ h) (hhi : h ≤ hi) :
    Counts ⟨scan.takeIn p t f a, before ++ t.children p f ++ after, .reporting t t.lo,
      log ++ [.answer t a (t.children p f)]⟩ h := by
  have ht : t ∈ before ++ t :: after := List.mem_append_right _ List.mem_cons_self
  obtain ⟨-, hle, hend⟩ := hs.out_within t ht
  have hperm := unreported_answer scan (scan.takeIn p t f a) before after (t.children p f) t log
    (log ++ [.answer t a (t.children p f)]) h
  rcases hs.height h hlo hhi with ⟨hp, hnone⟩ | ⟨hc, hnil, hne⟩
  · refine .inl ⟨?_, fun hnil => ?_⟩
    · rw [Scan.state?_takeIn, hp, Option.map_some, HeightState.registerMany, hperm.length_eq,
        List.length_append, List.countP_eq_length_filter]
    · rw [hnil, List.nil_perm, List.append_eq_nil_iff] at hperm
      have hmem := mem_unreported_of_mem_out (r := ⟨scan, before ++ t :: after, .waiting, log⟩) ht
        (Nat.le_refl _) hle
      exact absurd (hnone hperm.1) (hs.launched_ne_nil hmem)
  · refine .inr ⟨(Scan.isComplete_takeIn ..).trans hc, ?_, ?_⟩
    · rwa [hnil, hs.filter_children_eq_nil hjudge hc, List.append_nil, List.perm_nil] at hperm
    · rw [launched_concat]
      exact fun h0 => hne (List.append_eq_nil_iff.1 h0).1

theorem Sound.answer {scan : Scan} {before after : List Task} {t : Task} {log : List Move}
    {a : Answer} {f : Finding} (hs : Sound lo hi ⟨scan, before ++ t :: after, .waiting, log⟩)
    (hjudge : t.judge a = .ok f) :
    Sound lo hi ⟨scan.takeIn p t f a, before ++ t.children p f ++ after, .reporting t t.lo,
      log ++ [.answer t a (t.children p f)]⟩ := by
  obtain ⟨hlo, hle, hend⟩ := hs.out_within t (List.mem_append_right _ List.mem_cons_self)
  refine ⟨?_, ⟨hlo, Nat.le_refl _, hend⟩, ?_, fun h => hs.counts_answer hjudge, ?_, ?_⟩
  · intro c hc
    rcases List.mem_append.1 hc with hc | hc
    · rcases List.mem_append.1 hc with hc | hc
      · exact hs.out_within c (List.mem_append_left _ hc)
      · obtain ⟨hfrom, hlive, hto⟩ := Task.within_of_mem_children hjudge hc
        exact ⟨by omega, hlive, by omega⟩
    · exact hs.out_within c (List.mem_append_right _ (List.mem_cons_of_mem _ hc))
  · intro h hout
    rw [Scan.state?_takeIn, hs.outside h hout]
    rfl
  · intro h
    rw [launched_concat, reportsOn_concat, List.filter_append]
    refine ((hs.ledger h).append_right _).trans ?_
    rw [List.append_assoc, Move.reporter?, Option.toList_none, List.append_nil]
    exact (unreported_answer ..).symm.append_left _
  · intro h tx htx
    rcases Buckets.mem_get_addAll htx with hold | ⟨-, hh⟩
    · exact hs.buckets h tx hold
    · exact hh

theorem Stage.unreported_of_ne (t : Task) {k h : Nat} (hne : h ≠ k) :
    (Stage.reporting t k).unreported h = (Stage.reporting t (k + 1)).unreported h := by
  simp only [Stage.unreported]
  congr 1
  exact propext ⟨fun hc => ⟨by omega, hc.2⟩, fun hc => ⟨by omega, hc.2⟩⟩

/-- The reporting task is the last of the unreported ones. -/
theorem unreported_reporting {scan : Scan} {out : List Task} {t : Task} {k : Nat} {log : List Move}
    (hle : k ≤ t.hi) : unreported ⟨scan, out, .reporting t k, log⟩ k =
      out.filter (Task.covers k) ++ [t] := by
  simp [unreported, Stage.unreported, hle]

/-- A report on a height takes one task off its count; the count decides whether it was the last. -/
theorem Sound.counts_report {scan : Scan} {out : List Task} {t : Task} {k : Nat} {log : List Move}
    {stage : Stage} (hs : Sound lo hi ⟨scan, out, .reporting t k, log⟩) (hle : k ≤ t.hi)
    (hstage : stage.unreported k = []) (hlo : lo ≤ k) (hhi : k ≤ hi) :
    Counts ⟨scan.track (·.report k), out, stage, log ++ [.report t k]⟩ k := by
  have hbefore : unreported ⟨scan, out, .reporting t k, log⟩ k =
      out.filter (Task.covers k) ++ [t] := unreported_reporting hle
  have hafter : unreported ⟨scan.track (·.report k), out, stage, log ++ [.report t k]⟩ k =
      out.filter (Task.covers k) := by
    rw [unreported, hstage, List.append_nil]
  have hmem : t ∈ unreported ⟨scan, out, .reporting t k, log⟩ k :=
    hbefore ▸ List.mem_append_right _ List.mem_cons_self
  have hstate : (scan.track (·.report k)).tracker.state? k =
      some (HeightState.pending ((out.filter (Task.covers k)).length + 1)).report := by
    rw [Scan.state?_track_report, if_pos rfl, hs.state?_of_mem hmem hlo hhi, hbefore, List.length_append,
      List.length_singleton, Option.map_some]
  -- the count is of this task and of those that are out, so the last report leaves nobody
  cases hlen : (out.filter (Task.covers k)).length with
  | zero =>
      refine .inr ⟨Tracker.isComplete_iff.2 ⟨.finalizing, ?_, rfl⟩, ?_, ?_⟩
      · rw [hstate, hlen]
        rfl
      · rw [hafter, List.eq_nil_of_length_eq_zero hlen]
      · rw [launched_concat]
        exact fun h0 => hs.launched_ne_nil hmem (List.append_eq_nil_iff.1 h0).1
  | succ n =>
      refine .inl ⟨?_, fun hnil => ?_⟩
      · rw [hstate, hafter, hlen]
        rfl
      · rw [← hafter, hnil] at hlen
        cases hlen

/-- A report on a height changes what this height counts and nothing else, whatever the run does
next. -/
theorem Sound.reported {scan : Scan} {out : List Task} {t : Task} {k : Nat} {log : List Move}
    {stage : Stage} (hs : Sound lo hi ⟨scan, out, .reporting t k, log⟩) (hle : k ≤ t.hi)
    (hstage : stage.unreported = (Stage.reporting t (k + 1)).unreported)
    (hwithin : stage.Within lo hi) :
    Sound lo hi ⟨scan.track (·.report k), out, stage, log ++ [.report t k]⟩ := by
  have hself : stage.unreported k = [] := by
    rw [hstage, Stage.unreported, if_neg (by omega)]
  have hother : ∀ h, h ≠ k →
      unreported ⟨scan.track (·.report k), out, stage, log ++ [.report t k]⟩ h =
        unreported ⟨scan, out, .reporting t k, log⟩ h := by
    intro h hne
    simp only [unreported, hstage, Stage.unreported_of_ne t hne]
  refine ⟨hs.out_within, hwithin, ?_, ?_, ?_, hs.buckets⟩
  · intro h hout
    rw [Scan.state?_track_report, hs.outside h hout]
    split <;> rfl
  · intro h hlo hhi
    by_cases he : h = k
    · subst he
      exact hs.counts_report hle hself hlo hhi
    · refine (hs.height h hlo hhi).congr ?_ (hother h he) ?_
      · rw [Scan.state?_track_report, if_neg he]
      · rw [launched_concat, Move.launched, List.append_nil]
        rfl
  · intro h
    rw [launched_concat, reportsOn_concat, Move.launched, List.append_nil]
    by_cases he : h = k
    · subst he
      rw [Move.reporter?, if_pos rfl, Option.toList_some, List.append_assoc, unreported, hself,
        List.append_nil]
      refine (hs.ledger h).trans (List.Perm.append_left _ ?_)
      -- the reporting task moves from the unreported ones to those that have reported
      rw [unreported_reporting hle]
      exact List.perm_append_comm
    · rw [hother h he, Move.reporter?, if_neg (fun e => he e.symm), Option.toList_none,
        List.append_nil]
      exact hs.ledger h

/-- A move that neither registers nor reports anything, and settles a height at most. -/
theorem Sound.of_same_counts {scan scan' : Scan} {out : List Task} {stage stage' : Stage}
    {log : List Move} {m : Move} (hs : Sound lo hi ⟨scan, out, stage, log⟩)
    (hm : m.launched = []) (hm' : ∀ h, m.reporter? h = none)
    (hstage : stage'.unreported = stage.unreported) (hwithin : stage'.Within lo hi)
    (hstate : ∀ h, scan'.tracker.state? h = scan.tracker.state? h ∨
      scan'.tracker.state? h = (scan.tracker.state? h).map .settle)
    (hbuckets : ∀ h, ∀ tx ∈ scan'.buckets.get h, tx ∈ scan.buckets.get h) :
    Sound lo hi ⟨scan', out, stage', log ++ [m]⟩ := by
  have hlaunched : launched ⟨scan', out, stage', log ++ [m]⟩ =
      launched ⟨scan, out, stage, log⟩ := by
    rw [launched_concat, hm, List.append_nil]
    rfl
  have hunreported : unreported ⟨scan', out, stage', log ++ [m]⟩ =
      unreported ⟨scan, out, stage, log⟩ := by
    funext h
    simp only [unreported, hstage]
  refine ⟨hs.out_within, hwithin, fun h hout => ?_, fun h hlo hhi => ?_, fun h => ?_,
    fun h tx htx => hs.buckets h tx (hbuckets h tx htx)⟩
  · rcases hstate h with he | he <;> rw [he, hs.outside h hout]
    rfl
  · rcases hstate h with he | he
    · exact (hs.height h hlo hhi).congr he (congrFun hunreported h) hlaunched
    · unfold Counts
      rw [hlaunched, hunreported, he]
      refine (hs.height h hlo hhi).imp ?_ ?_
      · rintro ⟨hp, hnil⟩
        rw [hp]
        exact ⟨rfl, hnil⟩
      · rintro ⟨hc, hrest⟩
        exact ⟨(Tracker.isComplete_eq_of_map he HeightState.isComplete_settle).trans hc, hrest⟩
  · rw [reportsOn_concat, hm', Option.toList_none, List.append_nil, hlaunched, hunreported]
    exact hs.ledger h

/-- **The invariant of a run.** -/
theorem Sound.step (hs : Sound lo hi r) (h : Step p replies r r') : Sound lo hi r' := by
  cases h with
  | answer _ hjudge => exact hs.answer hjudge
  | report hle _ =>
      obtain ⟨hlo, hk, hend⟩ := hs.stage_within
      exact hs.reported hle rfl ⟨hlo, by omega, hend⟩
  | complete hle _ =>
      obtain ⟨hlo, hk, hend⟩ := hs.stage_within
      exact hs.reported hle rfl ⟨hlo, hk, hle, hend⟩
  | store =>
      refine hs.of_same_counts rfl (fun _ => rfl) rfl hs.stage_within
        (fun h => .inl (by rw [Scan.tracker_storeBlock])) fun h tx htx => ?_
      rw [Scan.buckets_storeBlock, Buckets.get_remove] at htx
      split at htx
      · cases htx
      · exact htx
  | settle =>
      obtain ⟨hlo, hk, hle, hend⟩ := hs.stage_within
      refine hs.of_same_counts rfl (fun _ => rfl) rfl ⟨hlo, by omega, hend⟩ (fun h => ?_)
        fun _ _ htx => htx
      rw [Scan.state?_track_settle]
      split
      · exact .inr rfl
      · exact .inl rfl
  | @done scan out t k log hlt =>
      -- the task has reported on its last height, so it is unreported nowhere
      have hstage : (Stage.reporting t k).unreported = Stage.waiting.unreported := by
        funext h
        simp only [Stage.unreported, ite_eq_right_iff, reduceCtorEq, imp_false]
        omega
      obtain ⟨h₁, -, h₃, h₄, h₅, h₆⟩ := hs
      simp only [Counts, unreported, hstage] at h₄ h₅
      exact ⟨h₁, trivial, h₃, h₄, h₅, h₆⟩

theorem unreported_start (w : Window) (config : SyncConfig) (first : Option String)
    (lo hi h : Nat) : (start w config first lo hi).unreported h =
      (w.bootstrap config first lo hi).filter (Task.covers h) :=
  List.append_nil _

/-- At the start the heights of the window count the first tasks. -/
theorem state?_start (w : Window) (config : SyncConfig) (first : Option String) (lo hi h : Nat) :
    (start w config first lo hi).scan.tracker.state? h = if lo ≤ h ∧ h ≤ hi then
      some (.pending ((w.bootstrap config first lo hi).countP (Task.covers h))) else none := by
  refine (Tracker.state?_registerAll _ (w.scan lo hi).tracker h).trans ?_
  rw [Window.scan, Tracker.state?_ofBounds]
  split
  · simp [HeightState.registerMany]
  · rfl

/-- Every state of a run on a window is sound. -/
theorem sound_start (w : Window) (config : SyncConfig) (first : Option String) (lo hi : Nat) :
    Sound lo hi (start w config first lo hi) := by
  refine ⟨fun t ht => ?_, trivial, fun h hout => ?_, fun h hlo hhi => ?_, fun h => ?_,
    fun h tx htx => ?_⟩
  · obtain ⟨⟨c, b, -, rfl⟩, hlive⟩ := Window.mem_bootstrap.1 ht
    exact ⟨Nat.le_refl _, (Task.isLive_iff.1 hlive).2, rfl⟩
  · rw [state?_start, if_neg hout]
  · refine .inl ⟨?_, fun hnil => ?_⟩
    · rw [state?_start, if_pos ⟨hlo, hhi⟩, unreported_start, List.countP_eq_length_filter]
    · rw [launched_start]
      rw [unreported_start] at hnil
      -- every first task covers the whole window
      by_contra hne
      obtain ⟨t, ht⟩ := List.exists_mem_of_ne_nil _ hne
      refine List.filter_eq_nil_iff.1 hnil t ht ?_
      obtain ⟨⟨c, b, -, rfl⟩, -⟩ := Window.mem_bootstrap.1 ht
      exact Task.covers_iff.2 ⟨hlo, hhi⟩
  · rw [launched_start, unreported_start]
    exact .refl _
  · simp [start, Scan.launch, Scan.track, Window.scan] at htx

theorem Sound.steps (hs : Sound lo hi r) (h : Steps p replies r r') : Sound lo hi r' :=
  h.keep (P := Sound lo hi) (fun hs hstep => hs.step hstep) hs

end Run
end WatchWallet
