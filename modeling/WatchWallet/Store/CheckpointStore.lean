import WatchWallet.Checkpoint
import WatchWallet.Store.Disk

/-!
# Store — Checkpoint store

A place for the latest checkpoint, in memory or in a file of its own.
-/

namespace WatchWallet

/-- A place for the latest checkpoint. -/
inductive CheckpointStore where
  | memory (saved : Option Checkpoint)
  /-- The directory that holds the file. -/
  | file (dir : Path)
deriving DecidableEq

namespace CheckpointStore

/-- The name of the checkpoint file. -/
def fileName : String := "stable_checkpoint.json"

/-- The text of a checkpoint file. -/
def content (c : Checkpoint) : Bytes :=
  (String.ofList (Checkpoint.json.write c).pretty).toUTF8.toList

/-- The checkpoint in the text of a file. -/
def parse (s : String) : Except StorageError Checkpoint :=
  (Checkpoint.json.decode s).mapError .parseCheckpoint

/-- Saves a checkpoint in place of the last one. -/
def save (s : CheckpointStore) (c : Checkpoint) (disk : Disk) :
    Except SyncError Unit × CheckpointStore × Disk :=
  match s with
  | memory _ => (.ok (), memory (some c), disk)
  | file dir =>
    match disk.createDirectories dir with
    | .error e => (.error (.storage (.createDirectory e)), file dir, disk)
    | .ok disk =>
      match disk.write (dir ++ [fileName]) (content c) with
      | (.ok (), disk) => (.ok (), file dir, disk)
      | (.error e, disk) => (.error (.storage (.writeCheckpoint e)), file dir, disk)

/-- The last checkpoint, if any was saved. -/
def load (s : CheckpointStore) (disk : Disk) : Except SyncError (Option Checkpoint) :=
  match s with
  | memory saved => .ok saved
  | file dir =>
    match disk.readText (dir ++ [fileName]) with
    | .error .notFound => .ok none
    | .error e => .error (.storage (.readCheckpoint e))
    | .ok s => ((parse s).map some).mapError .storage

end CheckpointStore
end WatchWallet
