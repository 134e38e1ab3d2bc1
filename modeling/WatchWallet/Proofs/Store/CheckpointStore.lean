import WatchWallet.Proofs.Json.Lossless
import WatchWallet.Proofs.Store.FileStore
import WatchWallet.Store.CheckpointStore

/-!
# Store — Checkpoint store

A checkpoint is read back from its file (`load_eq`).  The file may stand among the files of blocks: its
name is not that of a block file, so neither disturbs the other.
-/

namespace WatchWallet

namespace CheckpointStore

/-- The file of checkpoints in a directory holds the checkpoint, if there is one. -/
def Saved (d : Disk) (dir : Path) (saved : Option Checkpoint) : Prop :=
  d.node? (dir ++ [fileName]) = saved.map fun c => .file (content c)

variable {d d' : Disk} {dir : Path} {saved : Option Checkpoint} {c : Checkpoint}

theorem path_ne_nil (dir : Path) : dir ++ [fileName] ≠ [] :=
  List.append_ne_nil_of_right_ne_nil _ (List.cons_ne_nil _ _)

theorem Saved.not_directory (h : Saved d dir saved) :
    d.node? (dir ++ [fileName]) ≠ some .directory := by
  rw [h]
  cases saved <;> exact nofun

/-- **What is saved is loaded.** -/
theorem Saved.load (h : Saved d dir saved) (hdir : d.HasDirectory dir) :
    (file dir).load d = .ok saved := by
  have hread : d.read (dir ++ [fileName]) =
      match saved with
      | none => .error .notFound
      | some c => .ok (content c) := by
    rw [Disk.read, h]
    cases saved with
    | none =>
        have hparent : d.parentError? (dir ++ [fileName]) = none := by
          rw [Disk.parentError?, List.dropLast_concat, hdir.node?]
        dsimp only [Option.map]
        rw [hparent]
        rfl
    | some c => rfl
  unfold CheckpointStore.load Disk.readText
  dsimp only
  rw [hread]
  cases saved with
  | none => rfl
  | some c =>
      dsimp only [bind, Except.bind, content]
      rw [Binary.fromUTF8?_toUTF8]
      dsimp only
      rw [parse, Checkpoint.lossless_json.decode_pretty]
      rfl

/-- **A checkpoint is saved when no change fails.** -/
theorem Saved.save (h : Saved d dir saved) (hdir : d.HasDirectory dir) (hdone : d.outcomes = [])
    (c : Checkpoint) : (file dir).save c d =
      (.ok (), file dir, d.put (dir ++ [fileName]) (.file (content c))) := by
  have hparent : d.node? (dir ++ [fileName]).dropLast = some .directory := by
    rw [List.dropLast_concat]
    exact hdir.node?
  unfold CheckpointStore.save
  dsimp only
  rw [Disk.createDirectories_eq hdir]
  dsimp only
  rw [Disk.write_eq hdone hparent h.not_directory]

theorem saved_put : Saved (d.put (dir ++ [fileName]) (.file (content c))) dir (some c) := by
  rw [Saved, Disk.node?_put (path_ne_nil dir), if_pos rfl]
  rfl

/-! ### Beside blocks -/

theorem height?_fileName : BlockFile.height? fileName = none := by
  decide

theorem fileName_ne_name (h : Nat) : fileName ≠ BlockFile.name h := by
  intro heq
  have hlist := congrArg String.toList heq
  rw [BlockFile.toList_name] at hlist
  cases hlist

end CheckpointStore

/-- Saving a checkpoint leaves the files of blocks as they are. -/
theorem FileStore.Files.saveCheckpoint {s : FileStore} {d : Disk} {queued : Nat → Prop}
    (h : s.Files d queued) (c : Checkpoint) :
    s.Files (d.put (s.dir ++ [CheckpointStore.fileName]) (.file (CheckpointStore.content c)))
      queued := by
  have hother : ∀ k, (d.put (s.dir ++ [CheckpointStore.fileName])
      (.file (CheckpointStore.content c))).node? (s.path k) = d.node? (s.path k) := by
    intro k
    rw [Disk.node?_put (CheckpointStore.path_ne_nil s.dir), if_neg]
    exact fun e =>
      CheckpointStore.fileName_ne_name k (List.cons.inj (List.append_cancel_left e)).1.symm
  refine ⟨h.directory.put (CheckpointStore.path_ne_nil s.dir) (Disk.append_not_mem_ancestors s.dir _),
    fun k hk => ?_, fun k hk => ?_, fun name n hn k hname => ?_⟩
  · rw [hother k]
    exact h.written k hk
  · rw [hother k]
    exact h.unwritten k hk
  · rcases Disk.mem_nodes_put hn with ⟨hpath, -⟩ | hn
    · rw [(List.cons.inj (List.append_cancel_left hpath)).1, CheckpointStore.height?_fileName] at hname
      cases hname
    · exact h.named name n hn k hname

end WatchWallet
