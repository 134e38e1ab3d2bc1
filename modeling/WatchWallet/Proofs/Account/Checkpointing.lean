import WatchWallet.Proofs.Account.Convergence
import WatchWallet.Proofs.Account.Course
import WatchWallet.Proofs.Window.Gathering

/-!
# Account — Checkpointing

What the checkpoint stands for, whatever explorers answer, wherever passes fail and wherever the tips lie
that they see (`Account.checkpoint_sound`): it never goes back, and below it, as below every stored block,
each height was finalized in the stable window of some pass.  So the height at which a window is resumed
(`Account.resumeAt`) skips nothing.
-/

namespace WatchWallet
open WatchWallet.Action (twoAddressAccount lookupFails)
open Window (threeBlocks)

/-! ### A stable window and its run -/

/-- The pass scans its stable window on the heights from `lo` to `hi`: it is resumed with the hash of its
first block, and comes from the window `v` to the window `w`. -/
inductive Pass.Scans (p : Pass) (lo hi : Nat) (first : String) (v w : Window)
    (result : Except Stop WindowStats) (s : p.σ) : Prop where
  | intro {tip : Nat} {s' : p.σ} (htip : p.tip? = some tip) (hle : p.depth ≤ tip)
      (hhi : tip - p.depth = hi)
      (hresume : (Action.resume p.explorer hi).perform (p.told tip) p.asked.2 =
        (.ok (some first, lo), p.told tip, s))
      (hwindow : (p.told tip).window .stable = v)
      (hscan : v.synchronize p.explorer p.account.config (some first) lo hi s = (result, w, s'))

/-- The stable window of the pass succeeds through a height. -/
def Pass.Completes (p : Pass) (hi : Nat) : Prop :=
  ∃ lo first v w stats s, p.Scans lo hi first v w (.ok stats) s

/-- A run of the stable window of the pass, which takes in the answers that the explorer gives. -/
inductive Pass.StableRun (p : Pass) (r : Run) : Prop where
  | intro {lo hi : Nat} {first : String} {v w : Window} {result : Except Stop WindowStats}
      {s s' : p.σ} {exchanges : List Exchange} (hscans : p.Scans lo hi first v w result s)
      (hrecorded : v.synchronize p.explorer.recorded p.account.config (some first) lo hi (s, []) =
        (result, w, s', exchanges))
      (hsteps : Run.Steps (v.plan p.account.config) (fun _ _ _ => True)
        (Run.start v p.account.config (some first) lo hi) r)
      (hleaves : v.Leaves result r.scan w)
      (hconcludes : r.Concludes v p.account.config lo hi result exchanges)

/-- The run has finalized a height: some task was registered there, and all that were have reported. -/
structure Run.Finalizes (r : Run) (x : Nat) : Prop where
  finalized : r.scan.tracker.state? x = some .finalized
  registered : r.launched.filter (Task.covers x) ≠ []
  reported : (r.launched.filter (Task.covers x)).Perm (r.reportsOn x)

/-- Some pass finalizes a height in its stable window. -/
def Pass.Finalized (ps : List Pass) (x : Nat) : Prop :=
  ∃ p ∈ ps, ∃ r, p.StableRun r ∧ r.Finalizes x

theorem Pass.Finalized.append {ps : List Pass} {x : Nat} (h : Finalized ps x) (qs : List Pass) :
    Finalized (ps ++ qs) x := by
  obtain ⟨p, hp, hr⟩ := h
  exact ⟨p, List.mem_append_left qs hp, hr⟩

/-- A chain with addresses has a batch to ask for. -/
theorem Batch.exists_mem_bootstrap {config : SyncConfig} (hvalid : config.Valid) {k : Keychain}
    (hne : k.addresses ≠ []) :
    ∃ b ∈ bootstrap k config.batchSize.toNat config.gapSize.toNat, b.isEmpty = false := by
  obtain ⟨a, ha⟩ : ∃ a, k.addresses[0]? = some a :=
    ⟨_, List.getElem?_eq_getElem (List.length_pos_iff.2 hne)⟩
  have hbatch : ∃ b ∈ bootstrap k config.batchSize.toNat config.gapSize.toNat, a ∈ b.addresses := by
    rcases Nat.eq_zero_or_pos k.used with hzero | hused
    · refine ⟨_, List.mem_append_right _ (List.mem_singleton.2 rfl), mem_derive.2 ⟨0, ha, ?_, ?_⟩⟩
      · exact Nat.le_of_eq hzero
      · have := hvalid.gapSize_pos
        omega
    · obtain ⟨b, hb, hmem⟩ := exists_mem_regulars hvalid.batchSize_pos ha hused
      exact ⟨b, List.mem_append_left _ hb, hmem⟩
  obtain ⟨b, hb, hmem⟩ := hbatch
  exact ⟨b, hb, List.isEmpty_eq_false_iff.2 (List.ne_nil_of_mem hmem)⟩

namespace Run

variable {v : Window} {config : SyncConfig} {first : Option String} {lo hi x : Nat} {r : Run}
  {replies : Replies}

/-- Whoever is registered stays so. -/
theorem mem_launched_of_steps (h : Steps (v.plan config) replies (start v config first lo hi) r)
    {t : Task} (ht : t ∈ v.bootstrap config first lo hi) : t ∈ r.launched := by
  refine h.keep (P := fun r => t ∈ r.launched) (fun {r r'} hr hstep => ?_) ?_
  · cases hstep with
    | answer _ _ | report _ _ | complete _ _ | store | settle =>
        rw [launched_concat]
        exact List.mem_append_left _ hr
    | done _ => exact hr
  · rwa [launched_start]

/-- When no answer is being taken in, the complete heights are finalized. -/
theorem finalizes_of_isComplete (hbatch : ∃ c, ∃ b ∈ Batch.bootstrap (v.chains.get c)
      config.batchSize.toNat config.gapSize.toNat, b.isEmpty = false)
    (h : Steps (v.plan config) replies (start v config first lo hi) r) (hstage : r.stage = .waiting)
    (hc : r.scan.tracker.isComplete x = true) : r.Finalizes x := by
  have hr := accounted_of_steps h
  obtain ⟨hlo, hhi⟩ := hr.sound.le_of_isComplete hc
  refine ⟨?_, ?_, ?_⟩
  · obtain ⟨s, hstate, hs⟩ := Tracker.isComplete_iff.1 hc
    cases s with
    | pending n => cases hs
    | finalizing =>
        have hlate := hr.closing x hstate
        rw [hstage] at hlate
        cases hlate
    | finalized => exact hstate
  · obtain ⟨c, b, hb, hne⟩ := hbatch
    have hlive : Task.isLive ⟨c, b, first, lo, hi⟩ = true := by
      simp [Task.isLive, hne, Nat.le_trans hlo hhi]
    refine List.ne_nil_of_mem (List.mem_filter.2 ⟨mem_launched_of_steps h
      (Window.mem_bootstrap.2 ⟨⟨c, b, hb, rfl⟩, hlive⟩), Task.covers_iff.2 ⟨hlo, hhi⟩⟩)
  · have hledger := hr.sound.ledger x
    rwa [(hr.sound.unreported_of_isComplete hc).1, List.append_nil] at hledger

end Run

namespace Account

/-- The last checkpoint. -/
def checkpoint? (a : Account) : Option Checkpoint := a.checkpoints.saved? a.disk

/-- The number of heights through the last checkpoint. -/
def checkpointed (a : Account) : Nat :=
  match a.checkpoint? with
  | some checkpoint => checkpoint.height.toNat + 1
  | none => 0

/-- What holds of an account after some passes: it is kept where it was, and each height that the
checkpoint or a stored block lies above was finalized. -/
structure Covered (start : Account) (ps : List Pass) (a : Account) : Prop extends
    Becomes start a where
  lies : a.checkpoints.Lies a.disk
  keyed : ∀ {h b}, a.stable.blocks.at? h = some b → b.height = h
  finalized : ∀ {x}, x < a.checkpointed ∨ (∃ h, x ≤ h ∧ a.stable.blocks.at? h ≠ none) →
    Pass.Finalized ps x

variable {start a b : Account} {ps : List Pass}

theorem checkpointed_congr (h : b.checkpoint? = a.checkpoint?) : b.checkpointed = a.checkpointed := by
  rw [checkpointed, checkpointed, h]

theorem checkpoint?_of_load {saved : Option Checkpoint}
    (h : a.checkpoints.load a.disk = .ok saved) : a.checkpoint? = saved :=
  CheckpointStore.saved?_of_load h

/-- What leaves the stable side alone leaves the checkpoint alone. -/
theorem Aside.checkpoint?_eq (h : a.Aside b) (hlies : a.checkpoints.Lies a.disk) :
    b.checkpoints.Lies b.disk ∧ b.checkpoint? = a.checkpoint? := by
  rw [checkpoint?, checkpoint?, h.checkpoints]
  exact hlies.rewrites h.disk fun dir _ => CheckpointStore.not_at_fileName _ dir

theorem Covered.aside (h : Covered start ps a) (haside : a.Aside b) :
    Covered start ps b ∧ b.checkpointed = a.checkpointed := by
  obtain ⟨hlies, hcheckpoint⟩ := haside.checkpoint?_eq h.lies
  have hsame := checkpointed_congr hcheckpoint
  refine ⟨⟨⟨haside.config.trans h.config, fun ch => (haside.chains ch).1.trans (h.addresses ch)⟩, hlies,
    ?_, ?_⟩, hsame⟩
  · rw [haside.stable]
    exact h.keyed
  · rw [hsame, haside.stable]
    exact h.finalized

/-- **No height is skipped**: below where the next stable window is resumed, all is finalized. -/
theorem Covered.finalized_of_lt_resumeAt (h : Covered start ps a) {x : Nat} (hx : x < a.resumeAt) :
    Pass.Finalized ps x := by
  rw [resumeAt] at hx
  split at hx
  · rename_i checkpoint hload
    exact h.finalized (.inl (by rw [checkpointed, checkpoint?_of_load hload]; exact hx))
  · rcases storedStart_cases h.keyed with hnone | ⟨block, hat, hstart⟩
    · rw [hnone] at hx
      exact absurd hx (Nat.not_lt_zero x)
    · rw [hstart] at hx
      exact h.finalized (.inr ⟨block.height, Nat.le_of_lt hx, by rw [hat]; exact Option.some_ne_none _⟩)

theorem checkpointed_le_resumeAt (a : Account) : a.checkpointed ≤ a.resumeAt := by
  unfold checkpointed checkpoint? CheckpointStore.saved? resumeAt
  rcases a.checkpoints.load a.disk with e | _ | checkpoint
  · exact Nat.zero_le _
  · exact Nat.zero_le _
  · exact Nat.le_refl _

/-- Whatever becomes of the stable window, the checkpoint can still be told from the place where it is
kept. -/
theorem lies_of_stablePhase {σ : Type} {explorer : Explorer σ} {now : Instant} {tip depth : Nat} {s : σ}
    {stable : Except Stop (Option WindowStats)} (h : a.checkpoints.Lies a.disk)
    (hphase : Action.StablePhase explorer now tip depth a s stable b) :
    b.checkpoints.Lies b.disk := by
  have hscanned : ∀ {w : Window}, (a.window .stable).Advances a.resumeAt (tip - depth) w →
      a.checkpoints.Lies w.disk := fun hw =>
    (h.rewrites hw.disk fun dir _ => CheckpointStore.not_at_fileName _ dir).1
  cases hphase with
  | short _ | ahead _ _ _ | lost _ _ => exact h
  | scanned _ _ hscan _ =>
      rw [checkpoints_ofWindow, disk_ofWindow]
      exact hscanned (Window.advances_of_synchronize hscan)
  | noted _ _ hscan hsave => exact ((hscanned (Window.advances_of_synchronize hscan)).save hsave).1

/-! ### The stable window -/

section Stable

variable (hvalid : start.config.Valid) (hchain : ∃ ch, (start.chains.get ch).addresses ≠ [])
include hvalid hchain

theorem Covered.exists_batch (h : Covered start ps a) (kind : WindowKind) :
    ∃ c, ∃ b ∈ Batch.bootstrap ((a.window kind).chains.get c) a.config.batchSize.toNat
      a.config.gapSize.toNat, b.isEmpty = false := by
  obtain ⟨ch, hne⟩ := hchain
  have hne' : ((a.window kind).chains.get ch).addresses ≠ [] := (h.addresses ch).symm ▸ hne
  exact ⟨ch, Batch.exists_mem_bootstrap (h.config.symm ▸ hvalid) hne'⟩

variable {p : Pass} {tip : Nat} (h : Covered start ps (p.told tip)) (htip : p.tip? = some tip)
include h htip

section Scan

variable {first : String} {w : Window} {s s' : p.σ} {result : Except Stop WindowStats}
  (hle : p.depth ≤ tip)
  (hresume : (Action.resume p.explorer (tip - p.depth)).perform (p.told tip) p.asked.2 =
    (.ok (some first, (p.told tip).resumeAt), p.told tip, s))
  (hscan : ((p.told tip).window .stable).synchronize p.explorer p.account.config (some first)
    (p.told tip).resumeAt (tip - p.depth) s = (result, w, s'))
include hle hresume hscan

/-- A scan of the stable window stores blocks at finalized heights only, and when it succeeds, every
height through its last one is finalized. -/
theorem Covered.finalized_of_scan :
    (∀ {x k}, x ≤ k → w.store.blocks.at? k ≠ none → Pass.Finalized (ps ++ [p]) x) ∧
      ∀ stats, result = .ok stats → ∀ x ≤ tip - p.depth, Pass.Finalized (ps ++ [p]) x := by
  have hbelow : ∀ {x}, x < (p.told tip).resumeAt → Pass.Finalized (ps ++ [p]) x := fun hx =>
    (h.finalized_of_lt_resumeAt hx).append [p]
  have hold : ∀ {x k}, x ≤ k → (p.told tip).stable.blocks.at? k ≠ none →
      Pass.Finalized (ps ++ [p]) x := fun hx hk => (h.finalized (.inr ⟨_, hx, hk⟩)).append [p]
  rcases Nat.lt_or_ge (tip - p.depth) (p.told tip).resumeAt with hlt | hlohi
  -- a window without heights stores nothing, and all through its end lies below the resume height
  · rw [Window.synchronize_of_lt _ p.explorer p.account.config (some first) hlt] at hscan
    cases hscan
    exact ⟨hold, fun _ _ x hx => hbelow (Nat.lt_of_le_of_lt hx hlt)⟩
  have hkeeps : p.explorer.Keeps fun _ _ _ => True := fun _ => trivial
  obtain ⟨exchanges, hrecorded, r, hsteps, hstage, hleaves, hconcludes⟩ :=
    Run.exchanges_of_synchronize hkeeps hlohi hscan
  have hbatch := h.exists_batch hvalid hchain .stable
  have hrun : p.StableRun r := .intro (.intro htip hle rfl hresume rfl hscan) hrecorded hsteps
    hleaves hconcludes
  have hcomplete : ∀ {x}, r.scan.tracker.isComplete x = true → Pass.Finalized (ps ++ [p]) x :=
    fun hc => ⟨p, List.mem_append_right _ (List.mem_singleton.2 rfl), r, hrun,
      Run.finalizes_of_isComplete hbatch hsteps hstage hc⟩
  obtain ⟨hs, ho⟩ := Run.inOrder_of_steps hsteps
  refine ⟨fun {x k} hx hk => ?_, fun stats hstats x hx => ?_⟩
  -- a block that the run has stored was complete, and so was all below it down to the resume height
  · rw [Run.blocks_of_leaves hsteps hleaves] at hk
    rcases ((p.told tip).window .stable).store.blocks.at?_addAll r.stored k with
      ⟨block, hmem, rfl, -⟩ | ⟨-, hat⟩
    · rcases Nat.lt_or_ge x (p.told tip).resumeAt with hlt | hlo
      · exact hbelow hlt
      · exact hcomplete (hs.isComplete_of_le (ho.isComplete block hmem).1 hlo hx)
    · exact hold hx (hat ▸ hk)
  · rcases Nat.lt_or_ge x (p.told tip).resumeAt with hlt | hlo
    · exact hbelow hlt
    have hout : r.out = [] := by
      subst hstats
      generalize hresult : Except.ok stats = result at hconcludes
      cases hconcludes with
      | unfit _ _ => cases hresult
      | joined _ hout => exact hout
      | failed _ _ => cases hresult
    have hfinished := Run.finished_of_out_eq_nil hbatch hsteps hstage hout
    exact hcomplete (Tracker.isComplete_iff.2 ⟨.finalized, hfinished.finalized x hlo hx, rfl⟩)

/-- **A scan of the stable window keeps the account covered**, also when it fails. -/
theorem Covered.scan : Covered start (ps ++ [p]) ((p.told tip).ofWindow w) ∧
    ((p.told tip).ofWindow w).checkpointed = (p.told tip).checkpointed := by
  have hw := Window.advances_of_synchronize hscan
  obtain ⟨hlies, hsaved⟩ := h.lies.rewrites hw.disk fun dir _ =>
    CheckpointStore.not_at_fileName _ dir
  have hstable := (p.told tip).stable_ofWindow hw.kind
  have hsame : ((p.told tip).ofWindow w).checkpointed = (p.told tip).checkpointed := by
    rw [checkpointed, checkpoint?, checkpoints_ofWindow, disk_ofWindow, hsaved]
    rfl
  refine ⟨⟨⟨((p.told tip).config_ofWindow w).trans h.config,
    fun ch => (hw.chains ch).1.trans (h.addresses ch)⟩, ?_, ?_, ?_⟩, hsame⟩
  · rw [checkpoints_ofWindow, disk_ofWindow]
    exact hlies
  · intro k block hblock
    rw [hstable] at hblock
    rcases hw.at?_cases k with hold | ⟨-, -, block', hnew, hheight⟩
    · exact h.keyed (hold ▸ hblock)
    · rwa [Option.some.inj (hblock.symm.trans hnew)]
  · rintro x (hx | ⟨k, hk, hne⟩)
    · rw [hsame] at hx
      exact (h.finalized (.inl hx)).append [p]
    · rw [hstable] at hne
      exact (h.finalized_of_scan hvalid hchain htip hle hresume hscan).1 hk hne

section Save

variable {checkpoint : Checkpoint} {checkpoints : CheckpointStore} {disk : Disk}

/-- **A checkpoint that is saved moves to the last height of its window**, and all below is finalized. -/
theorem Covered.save_ok {stats : WindowStats} (hstats : result = .ok stats)
    (hheight : checkpoint.height.toNat = tip - p.depth)
    (hsave : (p.told tip).checkpoints.save checkpoint w.disk = (.ok (), checkpoints, disk)) :
    Covered start (ps ++ [p]) { (p.told tip).ofWindow w with checkpoints, disk } ∧
      checkpointed { (p.told tip).ofWindow w with checkpoints, disk } = tip - p.depth + 1 := by
  obtain ⟨hcovered, -⟩ := h.scan hvalid hchain htip hle hresume hscan
  have hlies := hcovered.lies
  rw [checkpoints_ofWindow, disk_ofWindow] at hlies
  obtain ⟨hlies', hsaved, -⟩ := hlies.save hsave
  have hmoved : checkpointed { (p.told tip).ofWindow w with checkpoints, disk } =
      tip - p.depth + 1 := by
    rw [checkpointed, checkpoint?, hsaved rfl]
    exact congrArg (· + 1) hheight
  refine ⟨⟨⟨hcovered.config, hcovered.addresses⟩, hlies', hcovered.keyed, ?_⟩, hmoved⟩
  rintro x (hx | hx)
  · rw [hmoved] at hx
    exact (h.finalized_of_scan hvalid hchain htip hle hresume hscan).2 stats hstats x
      (Nat.le_of_lt_succ hx)
  · exact hcovered.finalized (.inr hx)

/-- A checkpoint that cannot be saved leaves the account covered, if the old one is still there. -/
theorem Covered.save_error {e : SyncError}
    (hsave : (p.told tip).checkpoints.save checkpoint w.disk = (.error e, checkpoints, disk))
    (hkeeps : ∀ cause, e = .storage (.writeCheckpoint cause) →
      checkpointed { (p.told tip).ofWindow w with checkpoints, disk } = (p.told tip).checkpointed) :
    Covered start (ps ++ [p]) { (p.told tip).ofWindow w with checkpoints, disk } ∧
      checkpointed { (p.told tip).ofWindow w with checkpoints, disk } =
        (p.told tip).checkpointed := by
  obtain ⟨hcovered, hsame⟩ := h.scan hvalid hchain htip hle hresume hscan
  have hlies := hcovered.lies
  rw [checkpoints_ofWindow, disk_ofWindow] at hlies
  obtain ⟨hlies', -, hfailed⟩ := hlies.save hsave
  have hkept : checkpointed { (p.told tip).ofWindow w with checkpoints, disk } =
      (p.told tip).checkpointed := by
    rcases hfailed e rfl with ⟨cause, rfl⟩ | hsaved
    · exact hkeeps cause rfl
    · rw [← hsame, checkpointed, checkpointed, checkpoint?, checkpoint?, hsaved,
        checkpoints_ofWindow, disk_ofWindow]
  refine ⟨⟨⟨hcovered.config, hcovered.addresses⟩, hlies', hcovered.keyed, fun hx =>
    hcovered.finalized ?_⟩, hkept⟩
  rwa [hkept, ← hsame] at hx

end Save

end Scan

/-- **How the stable window of a pass moves the checkpoint**: to the last stable height, if the window
succeeds and the checkpoint is saved; else it stays, and a window that is left out lies below it. -/
theorem Covered.stablePhase {stable : Except Stop (Option WindowStats)}
    (hphase : Action.StablePhase p.explorer p.now tip p.depth (p.told tip) p.asked.2 stable b)
    (hkeeps : ∀ cause, stable = .error (.failed (.storage (.writeCheckpoint cause))) →
      b.checkpointed = (p.told tip).checkpointed) :
    Covered start (ps ++ [p]) b ∧
      (b.checkpointed = (p.told tip).checkpointed ∧
          (∀ stats, stable = .ok (some stats) → tip - p.depth + 1 ≤ b.checkpointed) ∨
        p.Completes (tip - p.depth) ∧ (p.told tip).checkpointed ≤ tip - p.depth + 1 ∧
          b.checkpointed = tip - p.depth + 1) := by
  have hmore : Covered start (ps ++ [p]) (p.told tip) :=
    { h with finalized := fun hx => (h.finalized hx).append [p] }
  cases hphase with
  | short hlt => exact ⟨hmore, .inl ⟨rfl, nofun⟩⟩
  | ahead hle hload hahead =>
      refine ⟨hmore, .inl ⟨rfl, fun _ _ => ?_⟩⟩
      rw [checkpointed, checkpoint?_of_load hload]
      exact Nat.succ_le_succ hahead
  | lost hle _ => exact ⟨hmore, .inl ⟨rfl, nofun⟩⟩
  | scanned hle hresume hscan _ =>
      obtain ⟨hcovered, hsame⟩ := h.scan hvalid hchain htip hle hresume hscan
      exact ⟨hcovered, .inl ⟨hsame, nofun⟩⟩
  | @noted first hash s₁ s₂ stats w hle hresume hscan saved checkpoints disk hsave =>
      have hheight : (UInt32.ofNat (tip - p.depth)).toNat = tip - p.depth :=
        UInt32.toNat_ofNat_of_lt (Nat.lt_of_le_of_lt (Nat.sub_le ..) (p.lt_of_tip? htip))
      cases saved with
      | error e =>
          obtain ⟨hcovered, hkept⟩ := h.save_error hvalid hchain htip hle hresume hscan hsave
            fun cause hcause => hkeeps cause (congrArg (Except.error <| Stop.failed ·) hcause)
          exact ⟨hcovered, .inl ⟨hkept, nofun⟩⟩
      | ok u =>
          obtain ⟨hcovered, hmoved⟩ :=
            h.save_ok hvalid hchain htip hle hresume hscan rfl hheight hsave
          refine ⟨hcovered, .inr ⟨⟨_, _, _, _, _, _, .intro htip hle rfl hresume rfl hscan⟩, ?_,
            hmoved⟩⟩
          -- without a checkpoint anything moves it forward; with one, the window starts above it
          rcases (Action.resume_ok hresume).2.2 nofun with hnone | hresumed
          · rw [checkpointed, checkpoint?_of_load hnone]
            exact Nat.zero_le _
          · exact Nat.le_trans (p.told tip).checkpointed_le_resumeAt (Nat.le_succ_of_le hresumed)

end Stable

end Account

/-! ### The passes -/

/-- A checkpoint that cannot be saved leaves the old one. -/
def Pass.KeepsCheckpoint (p : Pass) : Prop :=
  ∀ cause, p.outcome = .error (.failed (.storage (.writeCheckpoint cause))) →
    p.after.checkpoint? = p.account.checkpoint?

/-- A pass moves the checkpoint forward: to the last stable height, when its stable window succeeds. -/
structure Pass.MovesCheckpoint (p : Pass) : Prop where
  le : p.account.checkpointed ≤ p.after.checkpointed
  ok : ∀ {stats}, p.outcome = .ok stats → stats.stable ≠ none →
    p.after.checkpointed = max p.account.checkpointed (stats.tip - p.depth + 1)
  error : ∀ {stop}, p.outcome = .error stop → p.after.checkpointed = p.account.checkpointed ∨
    ∃ hi, p.Completes hi ∧ p.after.checkpointed = max p.account.checkpointed (hi + 1)

namespace Account

variable {start a : Account} {ps : List Pass} (hvalid : start.config.Valid)
  (hchain : ∃ ch, (start.chains.get ch).addresses ≠ [])
include hvalid hchain

/-- **A pass keeps the account covered.** -/
theorem Covered.pass {p : Pass} (h : Covered start ps p.account) (hkeeps : p.KeepsCheckpoint) :
    Covered start (ps ++ [p]) p.after ∧ p.MovesCheckpoint := by
  cases p.effect with
  | unanswered htip hfail hrest =>
      obtain ⟨e, he⟩ := hfail
      obtain ⟨hcovered, hsame⟩ := h.aside hrest.toAside
      refine ⟨{ hcovered with finalized := fun hx => (hcovered.finalized hx).append [p] },
        Nat.le_of_eq hsame.symm, fun hok => ?_, fun _ => .inl hsame⟩
      rw [he] at hok
      cases hok
  | @answered tip stable b htip hphase hrest hfail hok =>
      have htold : Covered start ps (p.told tip) := ⟨⟨h.config, h.addresses⟩, h.lies, h.keyed, h.finalized⟩
      obtain ⟨-, hcheckpoint⟩ := hrest.checkpoint?_eq (lies_of_stablePhase htold.lies hphase)
      obtain ⟨hcovered, hmoved⟩ := htold.stablePhase hvalid hchain htip hphase fun cause hcause =>
        (checkpointed_congr hcheckpoint).symm.trans
          (checkpointed_congr (hkeeps cause (hfail _ hcause)))
      obtain ⟨hcovered', hsame⟩ := hcovered.aside hrest.toAside
      rw [show (p.told tip).checkpointed = p.account.checkpointed from rfl, ← hsame] at hmoved
      refine ⟨hcovered', ?_⟩
      rcases hmoved with ⟨hkept, hbelow⟩ | ⟨hcompletes, hle, hmoved⟩
      · refine ⟨Nat.le_of_eq hkept.symm, fun {stats} hstats hne => ?_, fun _ => .inl hkept⟩
        obtain ⟨rfl, rfl, -⟩ := hok stats hstats
        obtain ⟨window, hwindow⟩ := Option.ne_none_iff_exists'.1 hne
        have := hbelow window (congrArg Except.ok hwindow)
        omega
      · refine ⟨by omega, fun {stats} hstats hne => ?_, fun _ => .inr ⟨_, hcompletes, by omega⟩⟩
        obtain ⟨-, rfl, -⟩ := hok stats hstats
        omega

theorem Course.covered (hempty : ∀ h, start.stable.blocks.at? h = none)
    (hload : start.checkpoints.load start.disk = .ok none) (h : Course start ps a)
    (hkeeps : ∀ p ∈ ps, p.KeepsCheckpoint) : Covered start ps a := by
  induction h with
  | start =>
      refine ⟨⟨rfl, fun _ => rfl⟩, CheckpointStore.lies_of_load hload, fun {h b} hb => ?_, fun {x} hx => ?_⟩
      · cases (hempty h).symm.trans hb
      · rw [checkpointed, checkpoint?_of_load hload] at hx
        rcases hx with hx | ⟨k, -, hk⟩
        · exact absurd hx (Nat.not_lt_zero x)
        · exact absurd (hempty k) hk
  | @pass ps a h p hp ih =>
      have ha := ih fun q hq => hkeeps q (List.mem_append_left _ hq)
      exact (Covered.pass hvalid hchain (hp ▸ ha)
        (hkeeps p (List.mem_append_right _ (List.mem_singleton.2 rfl)))).1

end Account

/-- **The checkpoint is sound.**  Start with nothing stored, no checkpoint and at least one address, and
run any passes, with any explorers, on any disk.  Every height through the last checkpoint, and every
height below the one where the next stable window is resumed, was finalized in the stable window of a
pass.  The next pass never moves the checkpoint back; if it succeeds with a stable window, it leaves it at
the last stable height, unless it is there already; if it fails or overflows, it leaves it as it was, or
as it would have left it if its stable window has succeeded. -/
theorem Account.checkpoint_sound {start a : Account} {ps : List Pass}
    (hvalid : start.config.validate = .ok ())
    (hchain : ∃ ch, (start.chains.get ch).addresses ≠ [])
    (hempty : ∀ h, start.stable.blocks.at? h = none)
    (hload : start.checkpoints.load start.disk = .ok none) (hcourse : Course start ps a)
    (hkeeps : ∀ p ∈ ps, p.KeepsCheckpoint) :
    (∀ {c}, a.checkpoint? = some c → ∀ x ≤ c.height.toNat, Pass.Finalized ps x) ∧
      (∀ x < a.resumeAt, Pass.Finalized ps x) ∧
      ∀ {p : Pass}, p.account = a → p.KeepsCheckpoint → p.MovesCheckpoint := by
  have hvalid := SyncConfig.validate_eq_ok_iff.1 hvalid
  have hcovered := hcourse.covered hvalid hchain hempty hload hkeeps
  refine ⟨fun {c} hc x hx => hcovered.finalized (.inl ?_), fun x => hcovered.finalized_of_lt_resumeAt,
    fun {p} hp hkept => (Covered.pass hvalid hchain (hp ▸ hcovered) hkept).2⟩
  rw [checkpointed, hc]
  exact Nat.lt_succ_of_le hx

/-- The first pass fails when it asks for the hash to note with the checkpoint, the second one finds the
same blocks: it notes the height 1, and no height through it is skipped. -/
theorem Account.checkpoint_sound_lookupFails :
    let p : Pass := ⟨Unit, lookupFails, (), .epoch, twoAddressAccount⟩
    let q : Pass := ⟨Unit, threeBlocks.explorer 2, (), .epoch, p.after⟩
    p.after.checkpointed = 0 ∧ q.after.checkpointed = 2 ∧ ∀ x < 2, Pass.Finalized [p, q] x := by
  intro p q
  have hchain : ∃ ch, (twoAddressAccount.chains.get ch).addresses ≠ [] :=
    ⟨.receive, List.cons_ne_nil _ _⟩
  have hempty : ∀ h, twoAddressAccount.stable.blocks.at? h = none := fun _ => rfl
  have hfails : p.outcome = .error (.failed (.explorer (.blockNotFound "lost"))) := by decide +kernel
  have hkeeps : p.KeepsCheckpoint := fun cause hcause => by
    cases hfails.symm.trans hcause
  have hp : Course twoAddressAccount [p] p.after := .pass .start rfl
  obtain ⟨hzero, hok⟩ : p.after.checkpointed = 0 ∧
      q.outcome.toOption.map (fun stats => (stats.tip, stats.stable.isSome)) = some (2, true) := by
    decide +kernel
  rcases hstats : q.outcome with failure | stats
  · rw [hstats] at hok
    cases hok
  obtain ⟨htip, hstable⟩ := Prod.mk.inj (Option.some.inj ((hstats ▸ hok :)))
  have hq : q.KeepsCheckpoint := fun cause hcause => by
    cases hstats.symm.trans hcause
  obtain ⟨-, -, hmoves⟩ := checkpoint_sound rfl hchain hempty rfl hp (by simpa using hkeeps)
  have hdepth : q.depth = 1 := congrArg (·.unstableDepth.toNat) hp.config
  have htwo : q.after.checkpointed = 2 := by
    rw [(hmoves rfl hq).ok hstats (Option.isSome_iff_ne_none.1 hstable), htip, hdepth]
    exact hzero ▸ rfl
  obtain ⟨-, hresumed, -⟩ := checkpoint_sound rfl hchain hempty rfl (hp.pass (p := q) rfl)
    (by simp [hkeeps, hq])
  exact ⟨hzero, htwo, fun x hx =>
    hresumed x (Nat.lt_of_lt_of_le (htwo ▸ hx) q.after.checkpointed_le_resumeAt)⟩

end WatchWallet
