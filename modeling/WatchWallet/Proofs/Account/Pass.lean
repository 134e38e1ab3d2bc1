import WatchWallet.Proofs.Account.Action
import WatchWallet.Proofs.Account.Resumption

/-!
# Account — Pass

What one pass does to a sound account (`Account.Sound`), step by step.  Every step keeps it sound, also
when it fails; the stable window moves the height at which the next pass resumes behind the last final
one (`ensures_synchronizeStable`), and the unstable window is rebuilt above it
(`ensures_rebuildUnstable`).  So a pass that succeeds leaves all that touches the account in its stores
(`ensures_synchronizeAll`).  Of an overflow nothing is told.
-/

namespace WatchWallet

/-! ### The windows of a chain -/

namespace Split

variable {tip depth h : Nat}

theorem stableTo_eq_some_iff : (ofTip tip depth).stableTo = some h ↔ depth ≤ tip ∧ tip - depth = h := by
  simp [ofTip]

theorem stableTo_eq_none_iff : (ofTip tip depth).stableTo = none ↔ tip < depth := by
  simp [ofTip]

theorem unstableFrom_eq_some_iff :
    (ofTip tip depth).unstableFrom = some h ↔ depth ≠ 0 ∧ tip + 1 - depth = h := by
  simp [ofTip]

theorem unstableFrom_eq_none_iff : (ofTip tip depth).unstableFrom = none ↔ depth = 0 := by
  simp [ofTip]

end Split

namespace Action

variable {σ : Type} {explorer : Explorer σ} {base : Account} {c : Blockchain} {page lo hi : Nat}
  {start : String} {now : Instant}

/-! ### Single actions -/

/-- What is asked for at a height is the hash of the block there. -/
theorem ensures_blockHashAt (hhonest : explorer.Honest c page) {P : Account → Prop}
    (hgenesis : ∀ a, P a → c.StartsAt (some a.config.genesisHash) 0) (h : Nat) :
    Ensures P (blockHashAt explorer h) (fun hash a => P a ∧ c.StartsAt (some hash) h) fun _ => P := by
  rw [blockHashAt]
  split
  · subst h
    exact .get_bind fun a s ha => .pure fun b hb => ⟨hb ▸ ha, hb ▸ hgenesis a ha⟩
  · refine (Ensures.ask (R := fun found => found = c.header? h) hhonest.block).bind fun found => ?_
    cases found with
    | none => exact .throw fun a ha => ha.1
    | some block => exact .pure fun a ha => ⟨ha.1, Blockchain.startsAt_hash ha.2.symm⟩

/-- What a window is synchronized to. -/
theorem ensures_synchronizeWindow (hpage : 1 ≤ page) (hhonest : explorer.Honest c page)
    {kind : WindowKind} (hstart : c.StartsAt (some start) lo) (hle : lo ≤ hi)
    {P Q E : Account → Prop} (hvalid : ∀ a, P a → a.config.Valid)
    (hscanned : ∀ {a stop blocks w}, P a → lo ≤ stop → stop ≤ hi + 1 →
      (a.window kind).Scanned ((a.window kind).search a.config c lo) stop blocks w →
      E (a.ofWindow w) ∧ (stop = hi + 1 →
        ((a.window kind).search a.config c lo).Counts stop (fun ch => (w.chains.get ch).used) →
        Q (a.ofWindow w))) :
    Ensures P (synchronizeWindow explorer kind start lo hi) (fun _ => Q) (WhenFailed E) := by
  intro a s ha
  rw [perform_synchronizeWindow]
  rcases hrun : (a.window kind).synchronize explorer a.config (some start) lo hi s with
    ⟨result, w, s'⟩
  have hreached : result ≠ .error .overflow → _ := fun hreturns =>
    Window.scanned_of_synchronize (hvalid a ha) hpage hhonest.keeps hstart hle hrun hreturns
  match result with
  | .error .overflow => trivial
  | .error (.failed e) =>
      obtain ⟨stop, blocks, hlo, hhi, hw, -⟩ := hreached nofun
      exact (hscanned ha hlo hhi hw).1
  | .ok stats =>
      obtain ⟨stop, blocks, hlo, hhi, hw, hok⟩ := hreached nofun
      obtain ⟨rfl, hcounts⟩ := hok stats rfl
      exact (hscanned ha hlo hhi hw).2 rfl hcounts

/-! ### The stable window -/

section Stable

variable (hpage : 1 ≤ page) (hhonest : explorer.Honest c page) (hvalid : base.config.Valid)
  (hsuits : base.Suits c)

theorem ensures_loadCheckpoint : Ensures (base.Sound c) (loadCheckpoint : Action σ _)
    (fun saved a => base.Sound c a ∧ a.checkpoints.load a.disk = .ok saved)
    (WhenFailed (base.Sound c)) := by
  intro a s hs
  obtain ⟨saved, hsaved⟩ := hs.placed.load
  rw [perform_loadCheckpoint, hsaved]
  exact ⟨hs, hsaved⟩

/-- With the checkpoint at the last final height, the next pass resumes behind it. -/
theorem ensures_saveCheckpoint {hash : String} (hbound : hi < UInt32.size)
    (hfinal : c.final base.config.unstableDepth.toNat = hi + 1) :
    Ensures (fun a => base.Sound c a ∧ base.Caught c (hi + 1) a)
      (saveCheckpoint ⟨hi.toUInt32, hash, now⟩ : Action σ _)
      (fun _ a => base.Sound c a ∧ a.resumeAt = hi + 1) (WhenFailed (base.Sound c)) := by
  rintro a s ⟨hs, hcaught⟩
  obtain ⟨checkpoints, disk, hsave, hplaced, hload⟩ := hs.placed.save ⟨hi.toUInt32, hash, now⟩
  have hresume : Account.resumeAt { a with checkpoints, disk } = hi + 1 := by
    rw [Account.resumeAt, hload]
    exact congrArg (· + 1) (UInt32.toNat_ofNat_of_lt hbound)
  rw [perform_saveCheckpoint, hsave]
  refine ⟨⟨⟨hs.config, hs.addresses⟩, hplaced, hs.whole, ?_, ?_, hs.unstable⟩, hresume⟩
  · rw [hresume, hfinal]
  · rw [hresume]
    exact ⟨hcaught.stored, hcaught.known⟩

include hpage hhonest hvalid hsuits

theorem ensures_scanStable (hbound : hi < UInt32.size)
    (hfinal : c.final base.config.unstableDepth.toNat = hi + 1) (hle : lo ≤ hi)
    (hstart : c.StartsAt (some start) lo) :
    Ensures (fun a => base.Sound c a ∧ a.resumeAt = lo) (scanStable explorer now start lo hi)
      (fun _ a => base.Sound c a ∧ a.resumeAt = hi + 1) (WhenFailed (base.Sound c)) := by
  have hgenesis : ∀ a, base.Sound c a ∧ base.Caught c (hi + 1) a →
      c.StartsAt (some a.config.genesisHash) 0 := fun a ha => ha.1.config ▸ hsuits.genesis
  have hscan : Ensures (fun a => base.Sound c a ∧ a.resumeAt = lo)
      (synchronizeWindow explorer .stable start lo hi)
      (fun _ a => base.Sound c a ∧ base.Caught c (hi + 1) a) (WhenFailed (base.Sound c)) := by
    refine ensures_synchronizeWindow hpage hhonest hstart hle
      (Q := fun a => base.Sound c a ∧ base.Caught c (hi + 1) a)
      (fun a ha => ha.1.config ▸ hvalid) fun {a stop blocks w} ha hlo hhi hw => ?_
    obtain ⟨hs, rfl⟩ := ha
    obtain ⟨hs', hcaught⟩ := hs.scan hsuits hvalid.gapSize_pos hw hlo (hfinal ▸ hhi)
    exact ⟨hs', fun hstop _ => ⟨hs', hstop ▸ hcaught⟩⟩
  refine hscan.bind fun stats => ?_
  refine ((ensures_blockHashAt hhonest hgenesis hi).failing fun _ h => .of h.1).bind fun hash => ?_
  refine Ensures.bind ((ensures_saveCheckpoint hbound hfinal).mono (fun _ h => h.1)
    (fun _ _ h => h) fun _ h => h) fun _ => ?_
  exact .pure fun a ha => ha

/-- **The stable window converges**: from a sound account it ends behind the last final height. -/
theorem ensures_synchronizeStable (hbound : hi < UInt32.size)
    (hfinal : c.final base.config.unstableDepth.toNat = hi + 1) :
    Ensures (base.Sound c) (synchronizeStable explorer now hi)
      (fun _ a => base.Sound c a ∧ a.resumeAt = hi + 1) (WhenFailed (base.Sound c)) := by
  have hgenesis : ∀ {P : Account → Prop}, ∀ a, base.Sound c a ∧ P a →
      c.StartsAt (some a.config.genesisHash) 0 := fun a ha => ha.1.config ▸ hsuits.genesis
  refine ensures_loadCheckpoint.bind fun saved => ?_
  cases saved with
  | some checkpoint =>
      have hresume : ∀ {a : Account}, a.checkpoints.load a.disk = .ok (some checkpoint) →
          a.resumeAt = checkpoint.height.toNat + 1 := fun h => by rw [Account.resumeAt, h]
      dsimp only
      -- from the last checkpoint that can be saved there is no height to go on at
      refine ((Ensures.heightAfter checkpoint).failing fun _ h => .of h.1).bind fun lo => ?_
      refine (Ensures.of_and ?_).mono (fun _ h => h) (fun _ _ h => h) fun _ h => h
      rintro ⟨rfl, -⟩
      split
      · rename_i hlt
        refine .pure fun a ha => ⟨ha.1, ?_⟩
        have hle := ha.1.resumeAt_le
        rw [hresume ha.2] at hle ⊢
        omega
      · rename_i hle
        refine ((ensures_blockHashAt hhonest hgenesis _).failing fun _ h => .of h.1).bind fun hash => ?_
        rintro a s ⟨⟨hs, hcheckpoint⟩, hstart⟩
        exact ensures_scanStable hpage hhonest hvalid hsuits hbound hfinal (Nat.not_lt.1 hle) hstart
          a s ⟨hs, hresume hcheckpoint⟩
  | none =>
      refine .get_bind fun a s ha => ?_
      obtain ⟨hs, hcheckpoint⟩ := ha
      have hresume : a.resumeAt = (storedStart a).2 := by rw [Account.resumeAt, hcheckpoint]
      rcases Account.storedStart_cases hs.keys with hnone | ⟨block, hat, hstart⟩
      · dsimp only
        rw [hnone] at hresume ⊢
        exact (ensures_scanStable hpage hhonest hvalid hsuits hbound hfinal (Nat.zero_le hi)
          (hs.config ▸ hsuits.genesis)).of_eq ⟨hs, hresume⟩
      · dsimp only
        rw [hstart] at hresume ⊢
        obtain ⟨hlt, hshows⟩ := hs.whole hat
        exact (ensures_scanStable hpage hhonest hvalid hsuits hbound hfinal (by omega)
          (Blockchain.startsAt_hash hshows.header)).of_eq ⟨hs, hresume⟩

end Stable

/-! ### The unstable window -/

section Unstable

theorem ensures_clearUnstable {k : Nat} : Ensures (fun a => base.Sound c a ∧ a.resumeAt = k)
    (clearUnstable : Action σ _)
    (fun _ a => (base.Sound c a ∧ a.resumeAt = k) ∧ ∀ h, a.unstable.blocks.at? h = none)
    (WhenFailed (base.Sound c)) := by
  rintro a s ⟨hs, rfl⟩
  rw [perform_clearUnstable]
  have hempty : ∀ h, (a.unstable.removeFrom 0 a.disk).2.1.blocks.at? h = none := by
    intro h
    rw [BlockStore.blocks_removeFrom, Blocks.at?_below, if_neg (Nat.not_lt_zero h)]
  obtain ⟨hplaced, hload⟩ := hs.placed.clear (a.journal ++ [Act.removedFrom .unstable 0])
  obtain ⟨hs', hresume⟩ := hs.frame (b := { a with
    unstable := (a.unstable.removeFrom 0 a.disk).2.1
    disk := (a.unstable.removeFrom 0 a.disk).2.2
    journal := a.journal ++ [Act.removedFrom .unstable 0] }) rfl rfl hplaced hload (.refl _)
    fun _ => hempty
  cases (a.unstable.removeFrom 0 a.disk).1 with
  | error e => exact hs'
  | ok _ => exact ⟨⟨hs', hresume⟩, hempty⟩

variable (hpage : 1 ≤ page) (hhonest : explorer.Honest c page) (hvalid : base.config.Valid)
  (hsuits : base.Suits c)
include hpage hhonest hvalid hsuits

/-- **The unstable window is rebuilt** from the last final height to the tip. -/
theorem ensures_rebuildUnstable {tip : Nat} (hdepth : base.config.unstableDepth.toNat ≠ 0)
    (hle : lo ≤ tip) : Ensures (fun a => base.Sound c a ∧ a.resumeAt = lo)
      (rebuildUnstable explorer lo tip)
      (fun _ a => (base.Sound c a ∧ a.resumeAt = lo) ∧
        c.Extracts base.owned lo (tip + 1) a.unstable.blocks.toList)
      (WhenFailed (base.Sound c)) := by
  refine ensures_clearUnstable.bind fun _ => ?_
  have hgenesis : ∀ a, (base.Sound c a ∧ a.resumeAt = lo) ∧ (∀ h, a.unstable.blocks.at? h = none) →
      c.StartsAt (some a.config.genesisHash) 0 := fun a ha => ha.1.1.config ▸ hsuits.genesis
  refine ((ensures_blockHashAt hhonest hgenesis lo).failing fun _ h => .of h.1.1).bind fun start => ?_
  rintro a s ⟨ha, hstart⟩
  refine ensures_synchronizeWindow hpage hhonest hstart hle
    (P := fun a => (base.Sound c a ∧ a.resumeAt = lo) ∧ ∀ h, a.unstable.blocks.at? h = none)
    (Q := fun a => (base.Sound c a ∧ a.resumeAt = lo) ∧
      c.Extracts base.owned lo (tip + 1) a.unstable.blocks.toList)
    (fun a ha => ha.1.1.config ▸ hvalid) (fun {a stop blocks w} ha _ _ hw => ?_) a s ha
  obtain ⟨⟨hs, rfl⟩, hempty⟩ := ha
  obtain ⟨hplaced, hload⟩ := hs.placed.scan hw
  obtain ⟨hs', hresume⟩ := hs.frame (a.config_ofWindow w) (a.stable_ofWindow_of_unstable hw.kind)
    hplaced hload (fun ch => ⟨hw.addresses ch, hw.used_le ch⟩)
    fun hzero => absurd hzero hdepth
  refine ⟨hs', fun hstop _ => ⟨⟨hs', hresume⟩, ?_⟩⟩
  have hextracts := hs.caught.extracts hs.toBecomes hsuits hvalid.gapSize_pos hw
  rw [a.unstable_ofWindow hw.kind, ← hstop]
  exact hextracts.store_of_scanned hw hempty

end Unstable

/-! ### A pass -/

section Pass

variable {tip : Nat} (hpage : 1 ≤ page) (hhonest : explorer.Honest c page)
  (hvalid : base.config.Valid) (hsuits : base.Suits c)
include hpage hhonest hvalid hsuits

/-- If there are final heights, the stable window ends at the last of them. -/
theorem ensures_stableWindow (hbound : tip < UInt32.size) (htip : tip + 1 = c.blocks.length) :
    Ensures (base.Sound c)
      ((Split.ofTip tip base.config.unstableDepth.toNat).stableTo.mapM
        (synchronizeStable explorer now))
      (fun _ a => base.Sound c a ∧ a.resumeAt = c.final base.config.unstableDepth.toNat)
      (WhenFailed (base.Sound c)) := by
  have hfinal : c.final base.config.unstableDepth.toNat =
      tip + 1 - base.config.unstableDepth.toNat := by rw [htip]; rfl
  refine .optionMapM (fun hi hstable => ?_) fun hstable a hs => ?_
  · obtain ⟨hle, rfl⟩ := Split.stableTo_eq_some_iff.1 hstable
    have hlast : c.final base.config.unstableDepth.toNat =
        tip - base.config.unstableDepth.toNat + 1 := by rw [hfinal, Nat.sub_add_comm hle]
    rw [hlast]
    exact ensures_synchronizeStable hpage hhonest hvalid hsuits
      (Nat.lt_of_le_of_lt (Nat.sub_le ..) hbound) hlast
  · have hlt := Split.stableTo_eq_none_iff.1 hstable
    have hle := hs.resumeAt_le
    exact ⟨hs, by omega⟩

/-- If there are heights above the final ones, the unstable window is made of them. -/
theorem ensures_unstableWindow (htip : tip + 1 = c.blocks.length) :
    Ensures (fun a => base.Sound c a ∧ a.resumeAt = c.final base.config.unstableDepth.toNat)
      ((Split.ofTip tip base.config.unstableDepth.toNat).unstableFrom.mapM
        (rebuildUnstable explorer · tip))
      (fun _ a => base.Sound c a ∧ base.Settled c a) (WhenFailed (base.Sound c)) := by
  have hfinal : c.final base.config.unstableDepth.toNat =
      tip + 1 - base.config.unstableDepth.toNat := by rw [htip]; rfl
  refine .optionMapM (fun lo hunstable => ?_) fun hunstable a ha => ?_
  · obtain ⟨hdepth, rfl⟩ := Split.unstableFrom_eq_some_iff.1 hunstable
    rw [← hfinal]
    refine (ensures_rebuildUnstable hpage hhonest hvalid hsuits hdepth (by omega)).mono
      (fun _ h => h) (fun _ a ha => ?_) fun _ h => h
    obtain ⟨⟨hs, hresume⟩, hunstable⟩ := ha
    exact ⟨hs, hresume, hs.extracts_stable hresume, htip ▸ hunstable⟩
  · obtain ⟨hs, hresume⟩ := ha
    have hdepth := Split.unstableFrom_eq_none_iff.1 hunstable
    exact ⟨hs, hresume, hs.extracts_stable hresume, hs.extracts_unstable hdepth⟩

/-- **A pass converges.**  From a sound account, a pass that succeeds leaves all that touches the
account in the two stores, and one that fails leaves a sound account. -/
theorem ensures_synchronizeAll : Ensures (base.Sound c) (synchronizeAll explorer now)
    (fun _ a => base.Sound c a ∧ base.Settled c a) (WhenFailed (base.Sound c)) := by
  have hframe : ∀ {a : Account} {pending chains journal}, base.Sound c a → a.chains.Grows chains →
      base.Sound c { a with pending, chains, journal } ∧
        Account.resumeAt { a with pending, chains, journal } = a.resumeAt :=
    fun {a pending chains journal} hs hgrows =>
      hs.frame (b := { a with pending, chains, journal }) rfl rfl (hs.placed.frame rfl rfl rfl rfl)
        rfl hgrows hs.unstable
  refine ((Ensures.ask hhonest.tip).failing fun _ h => .of h).bind fun block => .of_and fun htip => ?_
  have hlength := Blockchain.height_of_tip? htip
  refine (Ensures.change (R := fun _ => base.Sound c) fun a hs => (hframe hs (.refl _)).1).bind fun _ => ?_
  refine .get_bind fun a s hs => .of_eq (P := base.Sound c) ?_ hs
  dsimp only
  rw [hs.config]
  refine (ensures_stableWindow hpage hhonest hvalid hsuits block.height.toNat_lt hlength).bind
    fun stable => ?_
  refine (ensures_unstableWindow hpage hhonest hvalid hsuits hlength).bind fun unstable => ?_
  refine ((Ensures.refreshPending (P := fun a => base.Sound c a ∧ base.Settled c a)
    fun ha hgrows => ?_).failing fun _ ha => .of ha.1).bind fun pending => ?_
  · obtain ⟨hs', hresume⟩ := hframe ha.1 hgrows
    exact ⟨hs', hresume.trans ha.2.resumeAt_eq, ha.2.stable, ha.2.unstable⟩
  exact .pure fun a ha => ha

end Pass

end Action
end WatchWallet
