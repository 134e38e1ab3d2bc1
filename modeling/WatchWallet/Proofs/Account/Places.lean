import WatchWallet.Account.Pass
import WatchWallet.Proofs.Store.CheckpointStore
import WatchWallet.Proofs.Window.Completeness

/-!
# Account — Places

Where an account keeps its stable side: the checkpoint in memory, or the checkpoint and the blocks in
files of one directory (`Account.Placed`).  Every step of a pass leaves it there; a scan and a removal do
not touch the checkpoint (`Placed.scan`, `Placed.clear`), and a checkpoint that is saved is the one that
is loaded next (`Placed.save`).
-/

namespace WatchWallet.Account

/-- The checkpoint and the stable blocks of the account are in files of one directory, every block in
its file, on a disk where no change fails; the unstable blocks are in memory. -/
structure Filed (a : Account) (dir : Path) : Prop where
  checkpoints : a.checkpoints = .file dir
  unstable : ∃ blocks, a.unstable = .memory blocks
  done : a.disk.outcomes = []
  stable : ∃ store, a.stable = .file store ∧ store.dir = dir ∧ store.dirty = ∅ ∧
    store.Files a.disk fun _ => False
  saved : ∃ saved, CheckpointStore.Saved a.disk dir saved

/-- The account keeps its stable side where another one does. -/
def Placed (base a : Account) : Prop :=
  match base.checkpoints with
  | .memory _ => ∃ saved, a.checkpoints = .memory saved
  | .file dir => a.Filed dir

variable {base a b : Account}

theorem Filed.load {dir : Path} (h : a.Filed dir) :
    ∃ saved, CheckpointStore.Saved a.disk dir saved ∧ a.checkpoints.load a.disk = .ok saved := by
  obtain ⟨saved, hsaved⟩ := h.saved
  obtain ⟨store, -, rfl, -, hfiles⟩ := h.stable
  exact ⟨saved, hsaved, by rw [h.checkpoints, hsaved.load hfiles.directory]⟩

/-- The checkpoint can be loaded. -/
theorem Placed.load (h : base.Placed a) : ∃ saved, a.checkpoints.load a.disk = .ok saved := by
  unfold Placed at h
  split at h
  · obtain ⟨saved, hsaved⟩ := h
    exact ⟨saved, by rw [hsaved]; rfl⟩
  · obtain ⟨saved, -, hload⟩ := h.load
    exact ⟨saved, hload⟩

/-- **A checkpoint is saved in its place**, and loaded from there. -/
theorem Placed.save (h : base.Placed a) (c : Checkpoint) :
    ∃ checkpoints disk, a.checkpoints.save c a.disk = (.ok (), checkpoints, disk) ∧
      base.Placed { a with checkpoints, disk } ∧ checkpoints.load disk = .ok (some c) := by
  unfold Placed at h ⊢
  split at h
  · obtain ⟨saved, hsaved⟩ := h
    exact ⟨.memory (some c), a.disk, by rw [hsaved]; rfl, ⟨some c, rfl⟩, rfl⟩
  · obtain ⟨saved, hsaved⟩ := h.saved
    obtain ⟨store, hstore, rfl, hdirty, hfiles⟩ := h.stable
    have hfiles' := hfiles.saveCheckpoint c
    have hsaved' : CheckpointStore.Saved _ store.dir (some c) := CheckpointStore.saved_put (d := a.disk)
    refine ⟨_, _, by rw [h.checkpoints, hsaved.save hfiles.directory h.done], ?_, ?_⟩
    · exact ⟨rfl, h.unstable, h.done, ⟨store, hstore, rfl, hdirty, hfiles'⟩, some c, hsaved'⟩
    · exact hsaved'.load hfiles'.directory

/-- What neither the stores nor the disk depends on may change. -/
theorem Placed.frame (h : base.Placed a) (hstable : b.stable = a.stable)
    (hunstable : b.unstable = a.unstable) (hcheckpoints : b.checkpoints = a.checkpoints)
    (hdisk : b.disk = a.disk) : base.Placed b := by
  unfold Placed at h ⊢
  split at h
  · rw [hcheckpoints]
    exact h
  · exact ⟨hcheckpoints ▸ h.checkpoints, hunstable ▸ h.unstable, hdisk ▸ h.done,
      by rw [hstable, hdisk]; exact h.stable, hdisk ▸ h.saved⟩

section OfWindow

variable (a : Account) (w : Window)

@[simp] theorem config_ofWindow : (a.ofWindow w).config = a.config := by
  rw [ofWindow]
  cases w.kind <;> rfl

@[simp] theorem checkpoints_ofWindow : (a.ofWindow w).checkpoints = a.checkpoints := by
  rw [ofWindow]
  cases w.kind <;> rfl

@[simp] theorem pending_ofWindow : (a.ofWindow w).pending = a.pending := by
  rw [ofWindow]
  cases w.kind <;> rfl

@[simp] theorem disk_ofWindow : (a.ofWindow w).disk = w.disk := by
  rw [ofWindow]

variable {w}

theorem stable_ofWindow (hkind : w.kind = .stable) : (a.ofWindow w).stable = w.store := by
  rw [ofWindow, hkind]

theorem unstable_ofWindow_of_stable (hkind : w.kind = .stable) :
    (a.ofWindow w).unstable = a.unstable := by
  rw [ofWindow, hkind]

theorem unstable_ofWindow (hkind : w.kind = .unstable) : (a.ofWindow w).unstable = w.store := by
  rw [ofWindow, hkind]

theorem stable_ofWindow_of_unstable (hkind : w.kind = .unstable) :
    (a.ofWindow w).stable = a.stable := by
  rw [ofWindow, hkind]

end OfWindow

section Scan

variable {s : Search} {stop : Nat} {blocks : List FilledBlock} {w : Window} {dir : Path}

/-- A scan of the stable window writes its blocks to files. -/
theorem Filed.scan_stable (h : a.Filed dir) (hw : (a.window .stable).Scanned s stop blocks w) :
    (a.ofWindow w).Filed dir ∧ ∀ {saved}, CheckpointStore.Saved a.disk dir saved →
      CheckpointStore.Saved (a.ofWindow w).disk dir saved := by
  obtain ⟨store, hstore, rfl, hdirty, hfiles⟩ := h.stable
  -- nothing was queued before, so the scan writes its own blocks and no others
  have hqueued : store.Files a.disk (· ∈ store.dirty) := by
    rw [hdirty]
    exact ⟨hfiles.directory, fun k _ => hfiles.written k id, fun k hk => absurd hk (by simp),
      hfiles.named⟩
  obtain ⟨d, hflush, hdone, hfiles', hsame⟩ :=
    FileStore.files_flush h.done (hqueued.foldl_add blocks)
  have hstored : (blocks.foldl BlockStore.add (a.window .stable).store).flush a.disk =
      (.ok (), .file { blocks.foldl FileStore.add store with dirty := ∅ }, d) := by
    rw [show (a.window .stable).store = .file store from hstore, BlockStore.foldl_add_file,
      BlockStore.flush, hflush]
  have hstable := a.stable_ofWindow hw.kind
  have hdisk := hw.disk
  rw [show (a.window .stable).disk = a.disk from rfl, hstored] at hdisk
  rw [hw.store, show (a.window .stable).disk = a.disk from rfl, hstored] at hstable
  have hsaved : ∀ {saved}, CheckpointStore.Saved a.disk store.dir saved →
      CheckpointStore.Saved (a.ofWindow w).disk store.dir saved := by
    intro saved hsaved
    rw [disk_ofWindow, hdisk, CheckpointStore.Saved, hsame]
    · exact hsaved
    · intro k heq
      rw [FileStore.path, FileStore.dir_foldl_add] at heq
      exact CheckpointStore.fileName_ne_name k (List.cons.inj (List.append_cancel_left heq)).1
  refine ⟨⟨?_, ?_, ?_, ⟨_, hstable, ?_, rfl, ?_⟩, ?_⟩, hsaved⟩
  · rw [checkpoints_ofWindow]
    exact h.checkpoints
  · rw [a.unstable_ofWindow_of_stable hw.kind]
    exact h.unstable
  · rw [disk_ofWindow, hdisk]
    exact hdone
  · exact FileStore.dir_foldl_add store blocks
  · rw [disk_ofWindow, hdisk]
    exact ⟨hfiles'.directory, hfiles'.written, fun k hk => absurd hk (by simp), hfiles'.named⟩
  · obtain ⟨saved, hold⟩ := h.saved
    exact ⟨saved, hsaved hold⟩

/-- A scan of the unstable window leaves the disk as it is. -/
theorem Filed.scan_unstable (h : a.Filed dir) (hw : (a.window .unstable).Scanned s stop blocks w) :
    (a.ofWindow w).Filed dir ∧ (a.ofWindow w).disk = a.disk := by
  obtain ⟨held, hheld⟩ := h.unstable
  have hstored : (blocks.foldl BlockStore.add (a.window .unstable).store).flush a.disk =
      (.ok (), .memory (held.addAll blocks), a.disk) := by
    rw [show (a.window .unstable).store = .memory held from hheld, BlockStore.foldl_add_memory]
    rfl
  have hdisk : (a.ofWindow w).disk = a.disk := by
    rw [disk_ofWindow, hw.disk, show (a.window .unstable).disk = a.disk from rfl, hstored]
  have hunstable := a.unstable_ofWindow hw.kind
  rw [hw.store, show (a.window .unstable).disk = a.disk from rfl, hstored] at hunstable
  refine ⟨⟨?_, ⟨_, hunstable⟩, hdisk ▸ h.done, ?_, hdisk ▸ h.saved⟩, hdisk⟩
  · rw [checkpoints_ofWindow]
    exact h.checkpoints
  · rw [a.stable_ofWindow_of_unstable hw.kind, hdisk]
    exact h.stable

/-- **A scan leaves the account in its place** and does not touch the checkpoint. -/
theorem Placed.scan {kind : WindowKind} (h : base.Placed a)
    (hw : (a.window kind).Scanned s stop blocks w) : base.Placed (a.ofWindow w) ∧
      (a.ofWindow w).checkpoints.load (a.ofWindow w).disk = a.checkpoints.load a.disk := by
  unfold Placed at h ⊢
  split at h
  · obtain ⟨saved, hsaved⟩ := h
    rw [checkpoints_ofWindow, hsaved]
    exact ⟨⟨saved, rfl⟩, rfl⟩
  · rename_i dir _
    obtain ⟨saved, hsaved, hload⟩ := h.load
    have hscan : (a.ofWindow w).Filed dir ∧ CheckpointStore.Saved (a.ofWindow w).disk dir saved := by
      cases kind with
      | stable =>
          obtain ⟨h', hsame⟩ := h.scan_stable hw
          exact ⟨h', hsame hsaved⟩
      | unstable =>
          obtain ⟨h', hsame⟩ := h.scan_unstable hw
          exact ⟨h', hsame ▸ hsaved⟩
    obtain ⟨h', hsaved'⟩ := hscan
    obtain ⟨store, -, rfl, -, hfiles⟩ := h'.stable
    refine ⟨h', ?_⟩
    rw [hload, h'.checkpoints, hsaved'.load hfiles.directory]

end Scan

/-- **Removing the unstable blocks leaves the account in its place** and does not touch the
checkpoint. -/
theorem Placed.clear (h : base.Placed a) (journal : Journal) :
    let cleared := { a with
      unstable := (a.unstable.removeFrom 0 a.disk).2.1
      disk := (a.unstable.removeFrom 0 a.disk).2.2
      journal }
    base.Placed cleared ∧ cleared.checkpoints.load cleared.disk = a.checkpoints.load a.disk := by
  unfold Placed at h ⊢
  split at h
  · obtain ⟨saved, hsaved⟩ := h
    dsimp only
    rw [hsaved]
    exact ⟨⟨saved, rfl⟩, rfl⟩
  · obtain ⟨held, hheld⟩ := h.unstable
    dsimp only
    rw [hheld]
    exact ⟨⟨h.checkpoints, ⟨_, rfl⟩, h.done, h.stable, h.saved⟩, rfl⟩

end WatchWallet.Account
