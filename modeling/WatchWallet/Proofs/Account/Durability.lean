import WatchWallet.Proofs.Account.Overlap
import WatchWallet.Proofs.Store.Durability

/-!
# Account — Durability

When the checkpoint runs ahead of the disk (`Account.durable_iff_of_saves`).  A stable window with heights
flushes the store before its checkpoint is saved, so what the checkpoint stands for is on the disk.  A
window without heights flushes nothing.  It comes up when no checkpoint was saved yet and the tip has gone
back behind the last stored block; what an earlier pass could not write then stays queued below the
checkpoint (`Account.durable_iff_of_saves_shorterChain`).
-/

namespace WatchWallet
open WatchWallet.Action (twoAddressAccount)
open Window (threeBlocks)

/-- The pass saves a checkpoint at the height `hi`, after its stable window from the height `lo` on; by
then the account has become `b`. -/
inductive Pass.Saves (p : Pass) (lo hi : Nat) (b : Account) : Prop where
  | intro {tip : Nat} {start : String} {stats : WindowStats} {s s' : p.σ} (htip : p.tip? = some tip)
      (hle : p.depth ≤ tip) (hhi : tip - p.depth = hi)
      (hresume : (Action.resume p.explorer hi).perform (p.told tip) p.asked.2 =
        (.ok (some start, lo), p.told tip, s))
      (hscan : (Action.scanStable p.explorer p.now start lo hi).perform (p.told tip) s =
        (.ok stats, b, s'))

/-- When the scan of a stable window succeeds, the window has, and its checkpoint is saved. -/
theorem Action.scanStable_ok {σ : Type} {explorer : Explorer σ} {now : Instant} {start : String}
    {lo hi : Nat} {a b : Account} {s s' : σ} {stats : WindowStats}
    (h : (scanStable explorer now start lo hi).perform a s = (.ok stats, b, s')) :
    ∃ w s₁ hash checkpoints disk,
      (a.window .stable).synchronize explorer a.config (some start) lo hi s = (.ok stats, w, s₁) ∧
        a.checkpoints.save ⟨hi.toUInt32, hash, now⟩ w.disk = (.ok (), checkpoints, disk) ∧
        b = { a.ofWindow w with checkpoints, disk } := by
  rw [scanStable, perform_bind, perform_synchronizeWindow] at h
  rcases hscan : (a.window .stable).synchronize explorer a.config (some start) lo hi s with
    ⟨e | stats', w, s₁⟩ <;> rw [hscan] at h <;> dsimp only at h
  · cases h
  rw [perform_bind] at h
  have hhash : Ensures (· = a.ofWindow w) (blockHashAt explorer hi) _ _ := .blockHashAt hi
  have hhash := hhash (a.ofWindow w) s₁ rfl
  rcases hlookup : (blockHashAt explorer hi).perform (a.ofWindow w) s₁ with ⟨e | hash, c, s₂⟩ <;>
    rw [hlookup] at h hhash <;> dsimp only at h
  · cases h
  obtain rfl : c = a.ofWindow w := hhash
  rw [perform_bind, perform_saveCheckpoint, Account.checkpoints_ofWindow, Account.disk_ofWindow] at h
  rcases hsave : a.checkpoints.save ⟨hi.toUInt32, hash, now⟩ w.disk with ⟨e | u, checkpoints, disk⟩ <;>
    rw [hsave] at h <;> cases h
  exact ⟨w, s₁, hash, checkpoints, disk, rfl, hsave, rfl⟩

/-- A window without heights is passed over, and the checkpoint is saved all the same. -/
theorem Pass.saves_of_lt {p : Pass} {tip lo hi : Nat} {hash : String} {s : p.σ}
    {checkpoints : CheckpointStore} {disk : Disk} (htip : p.tip? = some tip) (hle : p.depth ≤ tip)
    (hhi : tip - p.depth = hi) (hload : p.account.checkpoints.load p.account.disk = .ok none)
    (hlo : (Action.storedStart p.account).2 = lo) (hlt : hi < lo)
    (hhash : (Action.blockHashAt p.explorer hi).perform (p.told tip) p.asked.2 =
      (.ok hash, p.told tip, s))
    (hsave : p.account.checkpoints.save ⟨hi.toUInt32, hash, p.now⟩ p.account.disk =
      (.ok (), checkpoints, disk)) :
    p.Saves lo hi { p.told tip with checkpoints, disk } := by
  have hresume : (Action.resume p.explorer hi).perform (p.told tip) p.asked.2 =
      (.ok (some (Action.storedStart p.account).1, lo), p.told tip, p.asked.2) := by
    rw [Action.resume, Action.perform_bind, Action.perform_loadCheckpoint,
      show (p.told tip).checkpoints.load (p.told tip).disk = .ok none from hload, ← hlo]
    rfl
  have hscan : (Action.scanStable p.explorer p.now (Action.storedStart p.account).1 lo hi).perform
      (p.told tip) p.asked.2 = (.ok (.idle lo hi), { p.told tip with checkpoints, disk }, s) := by
    rw [Action.scanStable, Action.perform_bind, Action.perform_synchronizeWindow,
      Window.synchronize_of_lt _ _ _ _ hlt]
    dsimp only
    rw [Action.perform_bind,
      show (p.told tip).ofWindow ((p.told tip).window .stable) = p.told tip from rfl, hhash]
    dsimp only
    rw [Action.perform_bind, Action.perform_saveCheckpoint,
      show (p.told tip).checkpoints.save _ (p.told tip).disk = _ from hsave]
    rfl
  exact .intro htip hle hhi hresume hscan

namespace Account

/-- The stable store of an account is kept in the directory.  No other part of the account has files of
blocks there, nor directories in their places. -/
structure Stores (dir : Path) (a : Account) : Prop where
  stable : ∃ s, a.stable = .file s ∧ s.dir = dir ∧ s.Kept a.disk (· ∈ s.dirty)
  unstable : a.unstable.dir? ≠ some dir
  checkpoints : ∀ ckdir, a.checkpoints = .file ckdir →
    ∀ n, BlockFile.height? n ≠ none → dir ++ [n] ∉ Disk.ancestors ckdir

variable {dir : Path} {start a b : Account} {ps : List Pass}

/-- What leaves the stable side alone leaves its files alone. -/
theorem Stores.aside (h : a.Stores dir) (haside : a.Aside b) : b.Stores dir := by
  obtain ⟨s, hs, rfl, hkept⟩ := h.stable
  refine ⟨⟨s, haside.stable.trans hs, rfl, ?_⟩, haside.dir ▸ h.unstable, haside.checkpoints ▸ h.checkpoints⟩
  refine hkept.elsewhere (haside.disk.hasDirectory hkept.directory) fun {n} _ => haside.disk.elsewhere ?_
  rintro ⟨dir', hdir', k, heq⟩
  exact h.unstable (hdir'.trans (congrArg some (List.append_inj_left' heq rfl).symm))

/-- A stable window keeps what it has written, and queues what it could not write; when it has heights and
succeeds, nothing stays queued. -/
theorem Stores.scan {σ : Type} {explorer : Explorer σ} {config : SyncConfig} {first : Option String}
    {lo hi : Nat} {s s' : σ} {result : Except Stop WindowStats} {w : Window} (h : a.Stores dir)
    (hscan : (a.window .stable).synchronize explorer config first lo hi s = (result, w, s')) :
    (a.ofWindow w).Stores dir ∧
      ∀ stats, result = .ok stats → lo ≤ hi → ∀ k, ¬(a.ofWindow w).stable.Queued k := by
  rcases Nat.lt_or_ge hi lo with hlt | hle
  · rw [Window.synchronize_of_lt _ explorer config first hlt] at hscan
    cases hscan
    exact ⟨h, fun _ _ hle => absurd hle (Nat.not_le.2 hlt)⟩
  obtain ⟨s, hs, hdir, hkept⟩ := h.stable
  have hkind := (Window.advances_of_synchronize hscan).kind
  obtain ⟨blocks, hsaved, hok⟩ := Window.saved_of_synchronize hle hscan
  have hadded : blocks.foldl BlockStore.add (a.window .stable).store =
      .file (blocks.foldl FileStore.add s) := by
    rw [← BlockStore.foldl_add_file, ← hs]
    rfl
  have hplaced : ∀ {s''}, w.store = .file s'' → s''.dir = dir → s''.Kept w.disk (· ∈ s''.dirty) →
      (a.ofWindow w).Stores dir := fun {s''} hstore hdir' hkept' =>
    ⟨⟨s'', (a.stable_ofWindow hkind).trans hstore, hdir', (a.disk_ofWindow w).symm ▸ hkept'⟩,
      (a.unstable_ofWindow_of_stable hkind).symm ▸ h.unstable,
      (a.checkpoints_ofWindow w).symm ▸ h.checkpoints⟩
  by_cases hreturns : result = .error .overflow
  · -- the blocks of the window stay queued in the file store
    rw [hreturns, hadded] at hsaved
    obtain ⟨hstore, hdisk⟩ := Prod.mk.inj hsaved
    refine ⟨hplaced hstore ((FileStore.dir_foldl_add s blocks).trans hdir) ?_,
      fun stats hstats => absurd (hstats.symm.trans hreturns) nofun⟩
    rw [hdisk]
    exact hkept.foldl_add blocks
  · -- the blocks of the window are queued in the file store and flushed there
    rcases hrun : (blocks.foldl FileStore.add s).flush a.disk with ⟨written, s'', disk⟩
    rw [hadded, BlockStore.flush, show (a.window .stable).disk = a.disk from rfl, hrun] at hok
    rw [Window.save_of_ne hreturns, hadded, BlockStore.flush,
      show (a.window .stable).disk = a.disk from rfl, hrun] at hsaved
    obtain ⟨hstore, hdisk⟩ := Prod.mk.inj hsaved
    obtain ⟨hkept', hdir', hnone⟩ := (hkept.foldl_add blocks).flush hrun
    refine ⟨hplaced hstore ?_ (hdisk ▸ hkept'), fun stats hstats _ k => ?_⟩
    · rw [hdir', FileStore.dir_foldl_add, hdir]
    · rw [a.stable_ofWindow hkind, hstore]
      exact hnone (hok stats hstats) k

/-- A checkpoint has a file of its own. -/
theorem Stores.save {c : Checkpoint} {result : Except SyncError Unit} {checkpoints : CheckpointStore}
    {disk : Disk} (h : a.Stores dir) (hsave : a.checkpoints.save c a.disk = (result, checkpoints, disk)) :
    Stores dir { a with checkpoints, disk } := by
  obtain ⟨s, hs, rfl, hkept⟩ := h.stable
  cases hplace : a.checkpoints with
  | memory saved =>
      rw [hplace] at hsave
      cases hsave
      exact ⟨⟨s, hs, rfl, hkept⟩, h.unstable, nofun⟩
  | file ckdir =>
      rw [hplace] at hsave
      obtain ⟨rfl, rfl | ⟨d₁, hmade, hwrites⟩⟩ := CheckpointStore.save_file hsave
      · exact ⟨⟨s, hs, rfl, hkept⟩, h.unstable, hplace ▸ h.checkpoints⟩
      · refine ⟨⟨s, hs, rfl, ?_⟩, h.unstable, hplace ▸ h.checkpoints⟩
        refine hkept.elsewhere (hwrites.hasDirectory (hkept.directory.createDirectories hmade))
          fun {n} hn => ?_
        rw [hwrites.elsewhere, Disk.node?_createDirectories hmade (h.checkpoints ckdir hplace n hn)]
        intro heq
        -- the checkpoint file is not named for a height
        obtain rfl := (List.cons.inj (List.append_inj_right' heq rfl)).1
        exact hn (by decide)

theorem Stores.save_ofWindow {c : Checkpoint} {result : Except SyncError Unit}
    {checkpoints : CheckpointStore} {disk : Disk} {w : Window} (h : (a.ofWindow w).Stores dir)
    (hsave : a.checkpoints.save c w.disk = (result, checkpoints, disk)) :
    Stores dir { a.ofWindow w with checkpoints, disk } := by
  rw [← a.checkpoints_ofWindow w, ← a.disk_ofWindow w] at hsave
  exact h.save hsave

theorem Stores.stablePhase {σ : Type} {explorer : Explorer σ} {now : Instant} {tip depth : Nat} {s : σ}
    {stable : Except Stop (Option WindowStats)} (h : a.Stores dir)
    (hphase : Action.StablePhase explorer now tip depth a s stable b) : b.Stores dir := by
  cases hphase with
  | short _ | ahead _ _ _ | lost _ _ => exact h
  | scanned _ _ hscan _ => exact (h.scan hscan).1
  | noted _ _ hscan hsave => exact (h.scan hscan).1.save_ofWindow hsave

theorem Stores.told {p : Pass} (h : p.account.Stores dir) (tip : Nat) : (p.told tip).Stores dir :=
  ⟨h.stable, h.unstable, h.checkpoints⟩

/-- **A pass keeps the stable store in its directory**, whatever becomes of it. -/
theorem Stores.pass {p : Pass} (h : p.account.Stores dir) : p.after.Stores dir := by
  cases p.effect with
  | unanswered _ _ hrest => exact h.aside hrest.toAside
  | answered _ hphase hrest _ _ =>
      exact ((h.told _).stablePhase hphase).aside hrest.toAside

theorem Course.stores (h : Course start ps a) (hstart : start.Stores dir) : a.Stores dir := by
  induction h with
  | start => exact hstart
  | pass _ hp ih => exact Stores.pass (hp ▸ ih)

/-- When a checkpoint is saved after a window with heights, nothing stays queued.  A window without heights
leaves the store as it was; there was no checkpoint, and a block is stored where the window starts. -/
theorem Stores.of_saves {p : Pass} {lo hi : Nat} (h : p.account.Stores dir) (hsaves : p.Saves lo hi b) :
    b.Stores dir ∧ (lo ≤ hi → ∀ k, ¬b.stable.Queued k) ∧
      (hi < lo → b.stable = p.account.stable ∧
        p.account.checkpoints.load p.account.disk = .ok none ∧ p.account.stable.blocks.at? lo ≠ none) := by
  obtain ⟨htip, hle, rfl, hresume, hscan⟩ := hsaves
  obtain ⟨hlo, -, hnone⟩ := Action.resume_ok hresume
  obtain ⟨w, s₁, hash, checkpoints, disk, hwindow, hsave, rfl⟩ := Action.scanStable_ok hscan
  obtain ⟨hscanned, hflushed⟩ := (h.told _).scan hwindow
  refine ⟨hscanned.save_ofWindow hsave, hflushed _ rfl, fun hlt => ?_⟩
  rw [Window.synchronize_of_lt _ p.explorer _ _ hlt] at hwindow
  cases hwindow
  -- with a checkpoint the window would have heights, so it starts at the last stored block
  have hload := (hnone nofun).resolve_right (Nat.not_le.2 (hlo ▸ hlt))
  obtain ⟨s, hs, -, hkept⟩ := h.stable
  have hkeyed : ∀ {x b}, p.account.stable.blocks.at? x = some b → b.height = x := by
    rw [hs]
    exact hkept.keyed
  refine ⟨rfl, hload, ?_⟩
  rw [resumeAt, hload] at hlo
  rcases storedStart_cases (a := p.told _) hkeyed with hzero | ⟨block, hat, hstart⟩
  · rw [hzero] at hlo
    exact absurd hlt (hlo ▸ Nat.not_lt_zero _)
  · rw [hstart] at hlo
    rw [show lo = block.height from hlo, show p.account.stable.blocks.at? block.height = some block from hat]
    exact Option.some_ne_none block

/-- **When the checkpoint runs ahead of the disk.**  Start with an empty directory for the stable blocks
and run any passes, with any explorers, on a disk where any write may fail.  When a pass saves a checkpoint
at the height `hi`, all blocks through it are written, exactly if the stable window of the pass had
heights, or nothing through `hi` was queued before the pass.  A window without heights comes up only when
there was no checkpoint and an earlier pass saw a higher tip.  Whatever is not queued is in its file, and
found when the directory is opened again. -/
theorem durable_iff_of_saves {d : Disk}
    (hopen : FileStore.openAt dir d = (.ok ⟨dir, .empty, ∅⟩, start.disk))
    (hstable : start.stable = .file ⟨dir, .empty, ∅⟩) (hunstable : start.unstable.dir? ≠ some dir)
    (hcheckpoints : ∀ ckdir, start.checkpoints = .file ckdir →
      ∀ n, BlockFile.height? n ≠ none → dir ++ [n] ∉ Disk.ancestors ckdir)
    (hcourse : Course start ps a) {p : Pass} (hp : p.account = a) {lo hi : Nat}
    (hsaves : p.Saves lo hi b)
    (hfits : ∀ {h block}, b.stable.blocks.at? h = some block →
      (FilledBlock.binary.write block).length < UInt64.size) :
    ((∀ h ≤ hi, b.stable.blocks.at? h ≠ none → ¬b.stable.Queued h) ↔
        lo ≤ hi ∨ ∀ h ≤ hi, ¬a.stable.Queued h) ∧
      (hi < lo → a.checkpoints.load a.disk = .ok none ∧
        ∃ q ∈ ps, ∃ t, q.tip? = some t ∧ hi + start.config.unstableDepth.toNat < t) ∧
      ∃ blocks, FileStore.openAt dir b.disk = (.ok ⟨dir, blocks, ∅⟩, b.disk) ∧
        ∀ {h block}, b.stable.blocks.at? h = some block → ¬b.stable.Queued h →
          b.disk.node? (dir ++ [BlockFile.name h]) = some (.file (FilledBlock.binary.write block)) ∧
            blocks.at? h = some block := by
  have hstart : start.Stores dir :=
    ⟨⟨_, hstable, rfl, FileStore.kept_of_openAt hopen⟩, hunstable, hcheckpoints⟩
  subst hp
  obtain ⟨hb, hnone, hempty⟩ := (hcourse.stores hstart).of_saves hsaves
  refine ⟨⟨fun hall => ?_, ?_⟩, fun hlt => ?_, ?_⟩
  · rcases Nat.lt_or_ge hi lo with hlt | hle
    · obtain ⟨hsame, -⟩ := hempty hlt
      obtain ⟨s, hs, -, hkept⟩ := hb.stable
      refine .inr fun k hk hqueued => hall k hk ?_ (hsame ▸ hqueued)
      rw [hs]
      rw [← hsame, hs] at hqueued
      exact hkept.held hqueued
    · exact .inl hle
  · rintro (hle | hall) k hk -
    · exact hnone hle k
    · rcases Nat.lt_or_ge hi lo with hlt | hle
      · rw [(hempty hlt).1]
        exact hall k hk
      · exact hnone hle k
  · obtain ⟨-, hload, hne⟩ := hempty hlt
    refine ⟨hload, ?_⟩
    rcases hcourse.at?_stable hne with hold | ⟨q, hq, t, ht, hle⟩
    · rw [hstable] at hold
      exact absurd (Blocks.at?_empty lo) hold
    · exact ⟨q, hq, t, ht, Nat.lt_of_lt_of_le (Nat.add_lt_add_right hlt _) hle⟩
  · obtain ⟨s, hs, rfl, hkept⟩ := hb.stable
    obtain ⟨blocks, hopened, hat⟩ := hkept.openAt
    refine ⟨blocks, hopened, fun {h block} hblock hnot => ?_⟩
    have hblock' : s.blocks.at? h = some block := by rwa [hs] at hblock
    have hnot' : h ∉ s.dirty := by rwa [hs] at hnot
    exact ⟨hkept.written hblock' hnot', hat hblock' hnot' (hfits hblock)⟩

/-- Every block is final, the blocks have files, and the first write is refused. -/
def refusingAccount : Account :=
  { twoAddressAccount with
    config := ⟨0, 1, 1, 2, "g"⟩
    stable := .file ⟨["d"], .empty, ∅⟩
    disk := ⟨[(["d"], .directory)], [.refused]⟩ }

/-- The first pass stores two blocks and can write neither.  The next one is told a chain that ends with
the first of them: its window starts at the second one and has no heights.  The checkpoint is saved, and
the block that it stands for is not found when the directory is opened again. -/
theorem durable_iff_of_saves_shorterChain :
    let p : Pass := ⟨Unit, threeBlocks.explorer 2, (), .epoch, refusingAccount⟩
    let q : Pass := ⟨Unit, shorterChain.explorer 2, (), .epoch, p.after⟩
    ∃ b, q.Saves 2 1 b ∧ (¬∀ h ≤ 1, b.stable.blocks.at? h ≠ none → ¬b.stable.Queued h) ∧
      b.stable.blocks.at? 1 ≠ none ∧
      ∃ blocks, FileStore.openAt ["d"] b.disk = (.ok ⟨["d"], blocks, ∅⟩, b.disk) ∧
        blocks.at? 1 = none := by
  intro p q
  have hp : Course refusingAccount [p] p.after := .pass .start rfl
  -- what the first pass leaves
  obtain ⟨hheld, hqueued, hlengths, hnodes, hcheckpoints, hstored⟩ :
      (p.after.stable.blocks.at? 1).isSome = true ∧ decide (p.after.stable.Queued 1) = true ∧
        p.after.stable.blocks.toList.all
          (fun block => decide ((FilledBlock.binary.write block).length < 1000)) = true ∧
        p.after.disk.nodes = [(["d"], .directory)] ∧ p.after.checkpoints = .memory none ∧
        Action.storedStart p.after = ("c", 2) := by
    decide +kernel
  have hdepth : q.depth = 0 := congrArg (·.unstableDepth.toNat) hp.config
  -- what the second pass does with it
  have hhash : ∀ a, (Action.blockHashAt (shorterChain.explorer 2) 1).perform a () = (.ok "b", a, ()) :=
    fun _ => rfl
  have hload : q.account.checkpoints.load q.account.disk = .ok none := by
    rw [show q.account = p.after from rfl, hcheckpoints]
    rfl
  have hsave : q.account.checkpoints.save ⟨Nat.toUInt32 1, "b", .epoch⟩ q.account.disk =
      (.ok (), .memory (some ⟨1, "b", .epoch⟩), q.account.disk) := by
    rw [show q.account = p.after from rfl, hcheckpoints]
    rfl
  let b : Account := { q.told 1 with checkpoints := .memory (some ⟨1, "b", .epoch⟩) }
  have hsaves : q.Saves 2 1 b :=
    Pass.saves_of_lt rfl (hdepth ▸ Nat.zero_le 1) (hdepth ▸ rfl) hload (congrArg (·.2) hstored)
      (Nat.lt_succ_self 1) (hhash _) hsave
  have hunstable : refusingAccount.unstable.dir? ≠ some ["d"] := (Option.some_ne_none _).symm
  have hmemory : ∀ ckdir, refusingAccount.checkpoints ≠ .file ckdir := fun ckdir h => by
    cases (show CheckpointStore.memory none = .file ckdir from h)
  have hfits : ∀ {h block}, b.stable.blocks.at? h = some block →
      (FilledBlock.binary.write block).length < UInt64.size := by
    intro h block hblock
    have hlength := List.all_eq_true.1 hlengths block (Blocks.mem_toList.2 ⟨h, hblock⟩)
    exact Nat.lt_trans (of_decide_eq_true hlength) (by decide)
  obtain ⟨hiff, -, blocks, hopened, -⟩ := durable_iff_of_saves
    (FileStore.openAt_oneDirectory "d" [.refused]) rfl hunstable
    (fun ckdir h => absurd h (hmemory ckdir)) hp rfl hsaves hfits
  refine ⟨b, hsaves, fun hall => ?_, Option.isSome_iff_ne_none.1 hheld, blocks, hopened, ?_⟩
  · rcases hiff.1 hall with hle | hnone
    · exact absurd hle (by decide)
    · exact hnone 1 (Nat.le_refl 1) (of_decide_eq_true hqueued)
  · have hdisk : b.disk = ⟨[(["d"], .directory)], b.disk.outcomes⟩ := by
      rw [← hnodes]
      rfl
    rw [hdisk, FileStore.openAt_oneDirectory] at hopened
    obtain rfl : Blocks.empty = blocks := by simpa using congrArg (·.1) hopened
    exact Blocks.at?_empty 1

end Account
end WatchWallet
