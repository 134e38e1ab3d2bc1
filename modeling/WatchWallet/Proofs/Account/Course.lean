import WatchWallet.Proofs.Account.Pass
import WatchWallet.Proofs.Window.Advance

/-!
# Account — Course

The passes over an account, one after the other, with any explorers on any disk (`Account.Course`).  What
a pass does is said once (`Pass.effect`): the tip splits the heights; the stable window is resumed, scanned
and noted in a checkpoint, and this phase may end at each of these steps (`Action.StablePhase`); and what
follows leaves the stable side alone (`Account.Aside`).
-/

namespace WatchWallet

/-! ### What follows the stable window -/

/-- Nothing has changed but the unstable side, the unconfirmed transactions, the marks and the journal. -/
structure Account.Aside (a b : Account) : Prop where
  config : b.config = a.config
  chains : a.chains.Grows b.chains
  stable : b.stable = a.stable
  checkpoints : b.checkpoints = a.checkpoints
  dir : b.unstable.dir? = a.unstable.dir?
  disk : a.disk.Rewrites (BlockFile.At a.unstable.dir?) b.disk

namespace Account.Aside

variable {a b c : Account}

theorem refl (a : Account) : a.Aside a :=
  ⟨rfl, .refl _, rfl, rfl, rfl, .refl _ _⟩

theorem trans (h : a.Aside b) (h' : b.Aside c) : a.Aside c :=
  ⟨h'.config.trans h.config, h.chains.trans h'.chains, h'.stable.trans h.stable,
    h'.checkpoints.trans h.checkpoints, h'.dir.trans h.dir, h.disk.trans (h.dir ▸ h'.disk)⟩

/-- An event is told. -/
theorem journal (h : a.Aside b) (journal : Journal) : a.Aside { b with journal } :=
  ⟨h.config, h.chains, h.stable, h.checkpoints, h.dir, h.disk⟩

/-- The unstable window is scanned. -/
theorem ofWindow (h : a.Aside b) {lo hi : Nat} {w : Window}
    (hw : (b.window .unstable).Advances lo hi w) : a.Aside (b.ofWindow w) := by
  have hkind : w.kind = .unstable := hw.kind
  refine h.trans ⟨b.config_ofWindow w, hw.chains, b.stable_ofWindow_of_unstable hkind,
    b.checkpoints_ofWindow w, ?_, ?_⟩
  · rw [b.unstable_ofWindow hkind]
    exact hw.dir
  · rw [disk_ofWindow]
    exact hw.disk

end Account.Aside

/-- What follows the stable window of a pass: without an unstable window, its store is not touched. -/
structure Account.Finishes (a : Account) (depth : Nat) (b : Account) : Prop extends a.Aside b where
  idle : depth = 0 → b.unstable = a.unstable

theorem Account.Finishes.refl {depth : Nat} (a : Account) : a.Finishes depth a :=
  ⟨.refl a, fun _ => rfl⟩

theorem Account.Finishes.journal {depth : Nat} {a b : Account} (h : a.Finishes depth b)
    (journal : Journal) : a.Finishes depth { b with journal } :=
  ⟨h.toAside.journal journal, h.idle⟩

/-- The unstable store holds nothing outside of the unstable window. -/
def Account.Recent (a : Account) (tip depth : Nat) : Prop :=
  ∀ h, a.unstable.blocks.at? h ≠ none → tip < h + depth ∧ h ≤ tip

namespace Action

variable {σ : Type} {explorer : Explorer σ} {now : Instant} {base : Account} {lo tip depth : Nat}

/-- Looking up a hash leaves the account as it is. -/
theorem Ensures.blockHashAt {P : Account → Prop} (h : Nat) :
    Ensures P (Action.blockHashAt explorer h) (fun _ => P) fun _ => P := by
  rw [Action.blockHashAt]
  split
  · exact .get_bind fun a s ha => .pure fun b hb => hb ▸ ha
  · refine ((Ensures.ask (R := fun _ => True) fun _ => trivial).mono (fun _ h => h)
      (fun _ _ h => h.1) fun _ h => h).bind fun found => ?_
    cases found with
    | none => exact .throw fun a ha => ha
    | some block => exact .pure fun a ha => ha

theorem aside_clearUnstable : Ensures base.Aside (clearUnstable : Action σ _)
    (fun _ a => base.Aside a ∧ ∀ h, a.unstable.blocks.at? h = none) fun _ => base.Aside := by
  intro a s ha
  rw [perform_clearUnstable]
  have haside : a.Aside { a with
      unstable := (a.unstable.removeFrom 0 a.disk).2.1
      disk := (a.unstable.removeFrom 0 a.disk).2.2
      journal := a.journal ++ [Act.removedFrom .unstable 0] } :=
    ⟨rfl, .refl _, rfl, rfl, a.unstable.dir?_removeFrom 0 a.disk, a.unstable.rewrites_removeFrom 0 a.disk⟩
  cases (a.unstable.removeFrom 0 a.disk).1 with
  | error e => exact ha.trans haside
  | ok _ =>
      refine ⟨ha.trans haside, fun h => ?_⟩
      dsimp only
      rw [BlockStore.blocks_removeFrom, Blocks.at?_below, if_neg (Nat.not_lt_zero h)]

/-- **The unstable store is rebuilt** from the heights of its window. -/
theorem aside_rebuildUnstable : Ensures base.Aside (rebuildUnstable explorer lo tip)
    (fun _ a => base.Aside a ∧ ∀ h, a.unstable.blocks.at? h ≠ none → lo ≤ h ∧ h ≤ tip)
    fun _ => base.Aside := by
  refine aside_clearUnstable.bind fun _ => ?_
  refine ((Ensures.blockHashAt lo).failing fun _ h => h.1).bind fun start => ?_
  rintro a s ⟨ha, hempty⟩
  rw [perform_synchronizeWindow]
  rcases hrun : (a.window .unstable).synchronize explorer a.config (some start) lo tip s with
    ⟨result, w, s'⟩
  have hw := Window.advances_of_synchronize hrun
  have haside := ha.ofWindow hw
  cases result with
  | error e => exact haside
  | ok stats =>
      refine ⟨haside, fun h hne => ?_⟩
      dsimp only at hne
      rw [a.unstable_ofWindow hw.kind] at hne
      rcases hw.at?_cases h with hold | ⟨hlo, hhi, -⟩
      · exact absurd (hold.trans (hempty h)) hne
      · exact ⟨hlo, hhi⟩

/-- What is left of a pass after its stable window. -/
def finish (explorer : Explorer σ) (tip depth : Nat) (stable : Option WindowStats) :
    Action σ SyncStats := do
  let unstable ← (Split.ofTip tip depth).unstableFrom.mapM (rebuildUnstable explorer · tip)
  let pending ← refreshPending explorer
  return { tip, stable, unstable, pending }

theorem finishes_finish {stable : Option WindowStats} :
    Ensures (· = base) (finish explorer tip depth stable)
      (fun stats a => (base.Finishes depth a ∧ (depth ≠ 0 → a.Recent tip depth)) ∧ stats.tip = tip ∧
        stats.stable = stable) fun _ => base.Finishes depth := by
  have hunstable : Ensures (· = base)
      ((Split.ofTip tip depth).unstableFrom.mapM (rebuildUnstable explorer · tip))
      (fun _ a => base.Finishes depth a ∧ (depth ≠ 0 → a.Recent tip depth))
      fun _ => base.Finishes depth := by
    refine .optionMapM (fun lo hlo => ?_) fun hnone a ha => ?_
    · obtain ⟨hdepth, rfl⟩ := Split.unstableFrom_eq_some_iff.1 hlo
      refine aside_rebuildUnstable.mono (fun a ha => ha ▸ .refl base)
        (fun _ a ha => ⟨⟨ha.1, fun hzero => absurd hzero hdepth⟩, fun _ h hne => ?_⟩)
        fun _ h => ⟨h, fun hzero => absurd hzero hdepth⟩
      obtain ⟨hle, hhi⟩ := ha.2 h hne
      exact ⟨by omega, hhi⟩
    · obtain rfl := ha
      exact ⟨.refl a, fun hne => absurd (Split.unstableFrom_eq_none_iff.1 hnone) hne⟩
  refine hunstable.bind fun unstable => ?_
  refine ((Ensures.refreshPending
    (P := fun a => base.Finishes depth a ∧ (depth ≠ 0 → a.Recent tip depth))
    fun ha hgrows => ?_).failing fun _ h => h.1).bind fun pending => .pure fun a ha => ⟨ha, rfl, rfl⟩
  obtain ⟨⟨haside, hidle⟩, hrecent⟩ := ha
  exact ⟨⟨⟨haside.config, haside.chains.trans hgrows, haside.stable, haside.checkpoints, haside.dir,
    haside.disk⟩, hidle⟩, hrecent⟩

/-! ### The stable window -/

/-- Where the stable window through the height `hi` is resumed: the hash of the first block and its
height, without a hash if the checkpoint is there already. -/
def resume (explorer : Explorer σ) (hi : Nat) : Action σ (Option String × Nat) := do
  match ← loadCheckpoint with
  | some checkpoint =>
    let lo ← heightAfter checkpoint
    if hi < lo then return (none, lo) else return (some (← blockHashAt explorer lo), lo)
  | none =>
    let (start, lo) := storedStart (← get).1
    return (some start, lo)

/-- The stable window is scanned from where it is resumed. -/
theorem synchronizeStable_eq (explorer : Explorer σ) (now : Instant) (hi : Nat) (a : Account) (s : σ) :
    (synchronizeStable explorer now hi).perform a s =
      (resume explorer hi >>= fun (start?, lo) =>
        match start? with
        | none => pure (.idle lo hi)
        | some start => scanStable explorer now start lo hi : Action σ _).perform a s := by
  simp only [synchronizeStable, resume, perform_bind, perform_loadCheckpoint]
  rcases a.checkpoints.load a.disk with e | _ | checkpoint
  · rfl
  · rfl
  · dsimp only [Except.mapError]
    rw [perform_bind, perform_bind, perform_heightAfter]
    by_cases hbound : checkpoint.height.toNat + 1 < UInt32.size
    · rw [if_pos hbound]
      dsimp only
      by_cases hlt : hi < checkpoint.height.toNat + 1
      · rw [if_pos hlt, if_pos hlt]
        rfl
      · rw [if_neg hlt, if_neg hlt, perform_bind, perform_bind]
        rcases (blockHashAt explorer (checkpoint.height.toNat + 1)).perform a s with ⟨_ | _, _, _⟩
        · rfl
        · rfl
    · rw [if_neg hbound]

theorem resume_ok {hi lo : Nat} {start? : Option String} {a a' : Account} {s s' : σ}
    (h : (resume explorer hi).perform a s = (.ok (start?, lo), a', s')) :
    lo = a.resumeAt ∧ (start? = none → ∃ c, a.checkpoints.load a.disk = .ok (some c) ∧
        hi ≤ c.height.toNat) ∧
      (start? ≠ none → a.checkpoints.load a.disk = .ok none ∨ a.resumeAt ≤ hi) := by
  simp only [resume, perform_bind, perform_loadCheckpoint] at h
  rcases hload : a.checkpoints.load a.disk with e | _ | checkpoint
  · rw [hload] at h
    cases h
  · rw [hload] at h
    cases h
    exact ⟨by rw [Account.resumeAt, hload], fun hnone => absurd hnone (Option.some_ne_none _),
      fun _ => .inl rfl⟩
  · have hresume : a.resumeAt = checkpoint.height.toNat + 1 := by rw [Account.resumeAt, hload]
    rw [hload] at h
    dsimp only [Except.mapError] at h
    rw [perform_bind, perform_heightAfter] at h
    by_cases hbound : checkpoint.height.toNat + 1 < UInt32.size
    case neg =>
      rw [if_neg hbound] at h
      cases h
    rw [if_pos hbound] at h
    dsimp only at h
    -- the window goes on above the checkpoint, if it has heights there
    by_cases hlt : hi < checkpoint.height.toNat + 1
    · rw [if_pos hlt] at h
      cases h
      exact ⟨hresume.symm, fun _ => ⟨checkpoint, rfl, by omega⟩, fun hne => absurd rfl hne⟩
    · rw [if_neg hlt, perform_bind] at h
      rcases hlookup : (blockHashAt explorer (checkpoint.height.toNat + 1)).perform a s with
        ⟨_ | hash, b, s₁⟩
      · rw [hlookup] at h
        cases h
      · rw [hlookup] at h
        cases h
        exact ⟨hresume.symm, fun hnone => absurd hnone (Option.some_ne_none _),
          fun _ => .inr (by omega)⟩

theorem keeps_resume {hi : Nat} {P : Account → Prop} :
    Ensures P (resume explorer hi) (fun _ => P) fun _ => P := by
  have hload : Ensures P (loadCheckpoint : Action σ _) (fun _ => P) fun _ => P := by
    intro a s ha
    rw [perform_loadCheckpoint]
    cases a.checkpoints.load a.disk <;> exact ha
  refine hload.bind fun saved => ?_
  cases saved with
  | some checkpoint =>
      refine ((Ensures.heightAfter checkpoint).mono (fun _ h => h) (fun _ _ h => h.1)
        fun _ h => h).bind fun lo => ?_
      split
      · exact .pure fun _ ha => ha
      · exact (Ensures.blockHashAt _).bind fun hash => .pure fun _ ha => ha
  | none => exact .get_bind fun a s ha => .pure fun b hb => hb ▸ ha

/-- What the stable window of a pass comes to, when the tip is known. -/
inductive StablePhase (explorer : Explorer σ) (now : Instant) (tip depth : Nat) (a : Account) (s : σ) :
    Except Stop (Option WindowStats) → Account → Prop where
  /-- The chain is too short for a stable window. -/
  | short (hlt : tip < depth) : StablePhase explorer now tip depth a s (.ok none) a
  /-- The checkpoint is there already. -/
  | ahead {c : Checkpoint} (hle : depth ≤ tip) (hload : a.checkpoints.load a.disk = .ok (some c))
      (hahead : tip - depth ≤ c.height.toNat) {stats : WindowStats} :
      StablePhase explorer now tip depth a s (.ok (some stats)) a
  /-- It does not become known where to resume. -/
  | lost (hle : depth ≤ tip) (stop : Stop) : StablePhase explorer now tip depth a s (.error stop) a
  /-- The window is scanned and does not succeed, or the hash for the checkpoint does not become known. -/
  | scanned {start : String} {s₁ s₂ : σ} {result : Except Stop WindowStats} {w : Window}
      (hle : depth ≤ tip)
      (hresume : (resume explorer (tip - depth)).perform a s = (.ok (some start, a.resumeAt), a, s₁))
      (hscan : (a.window .stable).synchronize explorer a.config (some start) a.resumeAt (tip - depth)
        s₁ = (result, w, s₂)) (stop : Stop) :
      StablePhase explorer now tip depth a s (.error stop) (a.ofWindow w)
  /-- The window succeeds, and the checkpoint is handed to its store. -/
  | noted {start hash : String} {s₁ s₂ : σ} {stats : WindowStats} {w : Window}
      (hle : depth ≤ tip)
      (hresume : (resume explorer (tip - depth)).perform a s = (.ok (some start, a.resumeAt), a, s₁))
      (hscan : (a.window .stable).synchronize explorer a.config (some start) a.resumeAt (tip - depth)
        s₁ = (.ok stats, w, s₂)) {result : Except SyncError Unit} {checkpoints : CheckpointStore}
      {disk : Disk}
      (hsave : a.checkpoints.save ⟨(tip - depth).toUInt32, hash, now⟩ w.disk =
        (result, checkpoints, disk)) :
      StablePhase explorer now tip depth a s ((result.mapError .failed).map fun _ => some stats)
        { a.ofWindow w with checkpoints, disk }

/-- Whatever becomes of the stable window, the unstable store is not touched, and blocks are stored at
stable heights only. -/
theorem StablePhase.frame {a b : Account} {s : σ} {result : Except Stop (Option WindowStats)}
    (h : StablePhase explorer now tip depth a s result b) :
    b.config = a.config ∧ b.unstable = a.unstable ∧
      ∀ x, b.stable.blocks.at? x = a.stable.blocks.at? x ∨ x + depth ≤ tip := by
  -- a scan that fails and one that succeeds store alike, and the checkpoint is no block
  have hscanned : ∀ {start : String} {s₁ s₂ : σ} {result : Except Stop WindowStats} {w : Window},
      depth ≤ tip → (a.window .stable).synchronize explorer a.config (some start) a.resumeAt (tip - depth)
        s₁ = (result, w, s₂) →
      (a.ofWindow w).config = a.config ∧ (a.ofWindow w).unstable = a.unstable ∧
        ∀ x, (a.ofWindow w).stable.blocks.at? x = a.stable.blocks.at? x ∨ x + depth ≤ tip := by
    intro start s₁ s₂ result w hle hscan
    have hw := Window.advances_of_synchronize hscan
    refine ⟨a.config_ofWindow w, a.unstable_ofWindow_of_stable hw.kind, fun x => ?_⟩
    rw [a.stable_ofWindow hw.kind]
    rcases hw.at?_cases x with hold | ⟨-, hhi, -⟩
    · exact .inl hold
    · exact .inr (by omega)
  cases h with
  | short _ | ahead _ _ _ | lost _ _ => exact ⟨rfl, rfl, fun _ => .inl rfl⟩
  | scanned hle _ hscan _ => exact hscanned hle hscan
  | noted hle _ hscan _ => exact hscanned hle hscan

theorem stablePhase_scanStable {a : Account} {s s₁ : σ} {start : String} (hle : depth ≤ tip)
    (hresume : (resume explorer (tip - depth)).perform a s = (.ok (some start, a.resumeAt), a, s₁)) :
    let done := (scanStable explorer now start a.resumeAt (tip - depth)).perform a s₁
    StablePhase explorer now tip depth a s (done.1.map some) done.2.1 := by
  rw [scanStable, perform_bind, perform_synchronizeWindow]
  rcases hscan : (a.window .stable).synchronize explorer a.config (some start) a.resumeAt (tip - depth)
    s₁ with ⟨e | stats, w, s₂⟩
  · exact .scanned hle hresume hscan e
  · dsimp only
    rw [perform_bind]
    -- asking for the hash of the checkpoint changes nothing, whether it is told or not
    have hhash : Ensures (· = a.ofWindow w) (blockHashAt explorer (tip - depth)) _ _ :=
      .blockHashAt (tip - depth)
    have hhash := hhash (a.ofWindow w) s₂ rfl
    rcases hlookup : (blockHashAt explorer (tip - depth)).perform (a.ofWindow w) s₂ with
      ⟨e | hash, b, s₃⟩ <;> rw [hlookup] at hhash
    · obtain rfl : b = a.ofWindow w := hhash
      exact .scanned hle hresume hscan e
    · obtain rfl : b = a.ofWindow w := hhash
      dsimp only
      rw [perform_bind, perform_saveCheckpoint, Account.checkpoints_ofWindow, Account.disk_ofWindow]
      rcases hsave : a.checkpoints.save ⟨(tip - depth).toUInt32, hash, now⟩ w.disk with
        ⟨e | u, checkpoints, disk⟩
      · exact .noted hle hresume hscan hsave
      · exact .noted hle hresume hscan hsave

/-- **What the stable window of a pass comes to.** -/
theorem stablePhase (explorer : Explorer σ) (now : Instant) (tip depth : Nat) (a : Account) (s : σ) :
    let done := ((Split.ofTip tip depth).stableTo.mapM (synchronizeStable explorer now)).perform a s
    StablePhase explorer now tip depth a s done.1 done.2.1 := by
  cases hstable : (Split.ofTip tip depth).stableTo with
  | none => exact .short (Split.stableTo_eq_none_iff.1 hstable)
  | some hi =>
      obtain ⟨hle, rfl⟩ := Split.stableTo_eq_some_iff.1 hstable
      rw [Option.mapM_some, map_eq_pure_bind, perform_bind, synchronizeStable_eq, perform_bind]
      have hsame : Ensures (· = a) (resume explorer (tip - depth)) _ _ := keeps_resume
      have hsame := hsame a s rfl
      rcases hresume : (resume explorer (tip - depth)).perform a s with ⟨e | ⟨start?, lo⟩, b, s₁⟩
      · rw [hresume] at hsame
        obtain rfl : b = a := hsame
        exact .lost hle e
      · rw [hresume] at hsame
        obtain rfl : b = a := hsame
        obtain ⟨rfl, hahead, -⟩ := resume_ok hresume
        cases start? with
        | none =>
            obtain ⟨c, hload, hc⟩ := hahead rfl
            exact .ahead hle hload hc
        | some start =>
            have hphase : let done := (scanStable explorer now start b.resumeAt (tip - depth)).perform b s₁
                StablePhase explorer now tip depth b s (done.1.map some) done.2.1 :=
              stablePhase_scanStable hle hresume
            dsimp only at hphase ⊢
            rcases hscan : (scanStable explorer now start b.resumeAt (tip - depth)).perform b s₁ with
              ⟨e | stats, c, s₂⟩ <;> rw [hscan] at hphase <;> exact hphase

end Action

/-! ### A pass -/

/-- A pass over an account, with an explorer in some state. -/
structure Pass where
  σ : Type
  explorer : Explorer σ
  state : σ
  now : Instant
  account : Account

namespace Pass

variable (p : Pass)

/-- What the pass comes to, with the account and the explorer after it. -/
def performed : Except Stop SyncStats × Account × p.σ :=
  (Action.synchronize p.explorer p.now).perform p.account p.state

/-- What the pass comes to. -/
def outcome : Except Stop SyncStats := p.performed.1

/-- The account after the pass. -/
def after : Account := p.performed.2.1

/-- The reply to the request for the tip, with the explorer after it. -/
def asked : Except ExplorerError Block × p.σ :=
  p.explorer.tip (p.explorer.delay p.state).2

/-- The height of the tip, if the explorer tells it. -/
def tip? : Option Nat := p.asked.1.toOption.map (·.height.toNat)

/-- The account when the height of the tip is told. -/
def told (tip : Nat) : Account :=
  { p.account with journal := p.account.journal ++ [.event (.syncStarted tip)] }

/-- The number of heights below the tip that may still be replaced. -/
def depth : Nat := p.account.config.unstableDepth.toNat

/-- What a pass does. -/
inductive Effect : Prop where
  | unanswered (htip : p.tip? = none) (hfail : ∃ e, p.outcome = .error (.failed e))
      (hrest : p.account.Finishes p.depth p.after)
  | answered {tip : Nat} {result : Except Stop (Option WindowStats)} {b : Account}
      (htip : p.tip? = some tip)
      (hphase : Action.StablePhase p.explorer p.now tip p.depth (p.told tip) p.asked.2 result b)
      (hrest : b.Finishes p.depth p.after) (hfail : ∀ e, result = .error e → p.outcome = .error e)
      (hok : ∀ stats, p.outcome = .ok stats →
        result = .ok stats.stable ∧ stats.tip = tip ∧ (p.depth ≠ 0 → p.after.Recent tip p.depth))

/-- What a pass comes to is told at its end. -/
theorem exists_acts :
    ∃ acts, p.outcome = ((Action.synchronizeAll p.explorer p.now).perform p.account p.state).1 ∧
      p.after = { ((Action.synchronizeAll p.explorer p.now).perform p.account p.state).2.1 with
        journal := ((Action.synchronizeAll p.explorer p.now).perform p.account p.state).2.1.journal ++
          acts } := by
  have h := Action.perform_synchronize p.account p.state p.explorer p.now
  exact ⟨_, congrArg (·.1) h, congrArg (·.2.1) h⟩

theorem lt_of_tip? {tip : Nat} (h : p.tip? = some tip) : tip < UInt32.size := by
  obtain ⟨block, -, rfl⟩ := Option.map_eq_some_iff.1 h
  exact block.height.toNat_lt

/-- **What a pass does**, whatever the explorer answers and whatever the disk does. -/
theorem effect : p.Effect := by
  obtain ⟨acts, houtcome, hafter⟩ := p.exists_acts
  -- the pass ends when the tip is not told, when its stable window fails, or in what follows it
  rcases htip : p.asked with ⟨failure | block, s⟩
  · have hall : (Action.synchronizeAll p.explorer p.now).perform p.account p.state =
        (.error (.failed (.explorer failure)), p.account, s) := by
      rw [Action.synchronizeAll, Action.perform_bind, Action.perform_ask]
      rw [show p.explorer.tip (p.explorer.delay p.state).2 = (.error failure, s) from htip]
      rfl
    rw [hall] at houtcome hafter
    exact .unanswered (by rw [tip?, htip]; rfl) ⟨_, houtcome⟩ (hafter ▸ (Account.Finishes.refl _).journal _)
  · have hall : (Action.synchronizeAll p.explorer p.now).perform p.account p.state =
        ((Split.ofTip block.height.toNat p.depth).stableTo.mapM
          (Action.synchronizeStable p.explorer p.now) >>=
            Action.finish p.explorer block.height.toNat p.depth).perform
          (p.told block.height.toNat) s :=
      Action.perform_synchronizeAll p.account p.state htip
    rw [Action.perform_bind] at hall
    have hknown : p.tip? = some block.height.toNat := by
      rw [tip?, htip]
      rfl
    have hphase := Action.stablePhase p.explorer p.now block.height.toNat p.depth
      (p.told block.height.toNat) p.asked.2
    rw [htip] at hphase
    rcases hstable : ((Split.ofTip block.height.toNat p.depth).stableTo.mapM
      (Action.synchronizeStable p.explorer p.now)).perform (p.told block.height.toNat) s with
      ⟨failure | stable, b, s₁⟩ <;> rw [hstable] at hphase hall <;> dsimp only at hphase hall <;>
      rw [show s = p.asked.2 by rw [htip]] at hphase
    · rw [hall] at houtcome hafter
      refine .answered hknown hphase (hafter ▸ (Account.Finishes.refl _).journal _)
        (fun e he => houtcome.trans (by cases he; rfl)) fun stats hok => ?_
      rw [houtcome] at hok
      cases hok
    · have hfinish : Action.Ensures (· = b) (Action.finish p.explorer block.height.toNat p.depth stable)
          _ _ := Action.finishes_finish
      have hfinish := hfinish b s₁ rfl
      rcases hrest : (Action.finish p.explorer block.height.toNat p.depth stable).perform b s₁ with
        ⟨failure | stats, c, s₂⟩ <;> rw [hrest] at hfinish hall <;> rw [hall] at houtcome hafter
      · refine .answered hknown hphase (hafter ▸ hfinish.journal _) (fun _ he => by cases he)
          fun stats hok => ?_
        rw [houtcome] at hok
        cases hok
      · obtain ⟨⟨hrest, hrecent⟩, hheight, hstats⟩ := hfinish
        refine .answered hknown hphase (hafter ▸ hrest.journal _) (fun _ he => by cases he)
          fun stats' hok => ?_
        obtain rfl : stats = stats' := Except.ok.inj (houtcome.symm.trans hok)
        exact ⟨by rw [hstats], hheight, hafter ▸ hrecent⟩

/-- A stable block was there before the pass, or it is one of the stable heights of the pass. -/
theorem at?_stable {h : Nat} (hne : p.after.stable.blocks.at? h ≠ none) :
    p.account.stable.blocks.at? h ≠ none ∨ ∃ t, p.tip? = some t ∧ h + p.depth ≤ t := by
  cases p.effect with
  | unanswered _ _ hrest => exact .inl (hrest.stable ▸ hne)
  | answered htip hphase hrest _ _ =>
      obtain ⟨-, -, hstable⟩ := hphase.frame
      rw [hrest.stable] at hne
      rcases hstable h with hold | hle
      · exact .inl fun hnone => hne (hold.trans hnone)
      · exact .inr ⟨_, htip, hle⟩

theorem config_after : p.after.config = p.account.config := by
  cases p.effect with
  | unanswered _ _ hrest => exact hrest.config
  | answered _ hphase hrest _ _ => exact hrest.config.trans hphase.frame.1

end Pass

/-- What an account may become in passes, one after the other.  Each of them may have an explorer of its
own, which answers whatever it likes, and may fail. -/
inductive Account.Course (start : Account) : List Pass → Account → Prop where
  | start : Course start [] start
  | pass {ps : List Pass} {a : Account} (h : Course start ps a) {p : Pass} (hp : p.account = a) :
      Course start (ps ++ [p]) p.after

namespace Account.Course

variable {start a : Account} {ps : List Pass}

theorem config (h : Course start ps a) : a.config = start.config := by
  induction h with
  | start => rfl
  | @pass ps a h p hp ih => exact p.config_after.trans (hp ▸ ih)

/-- A stable block was there at the start, or the tip of some pass was high enough above it. -/
theorem at?_stable (h : Course start ps a) {x : Nat} (hne : a.stable.blocks.at? x ≠ none) :
    start.stable.blocks.at? x ≠ none ∨
      ∃ q ∈ ps, ∃ t, q.tip? = some t ∧ x + start.config.unstableDepth.toNat ≤ t := by
  induction h with
  | start => exact .inl hne
  | @pass ps a h p hp ih =>
      rcases p.at?_stable hne with hold | ⟨t, htip, hle⟩
      · rcases ih (hp ▸ hold) with hstart | ⟨q, hq, hseen⟩
        · exact .inl hstart
        · exact .inr ⟨q, List.mem_append_left _ hq, hseen⟩
      · rw [Pass.depth, hp, h.config] at hle
        exact .inr ⟨p, List.mem_append_right _ (List.mem_singleton.2 rfl), t, htip, hle⟩

end Account.Course

end WatchWallet
