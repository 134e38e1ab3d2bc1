import Std.Data.ExtTreeSet
import WatchWallet.Store.BlockFile

/-!
# Store — File store

Blocks in memory, with a file for each in a directory.  A new block is only queued; a flush writes
the queued heights in ascending order and keeps those that it did not get to.  A removal first
forgets the blocks and then removes their files.
-/

namespace WatchWallet

/-- Blocks with their files. -/
structure FileStore where
  dir : Path
  blocks : Blocks
  /-- The heights whose file is not yet written. -/
  dirty : Std.ExtTreeSet Nat

namespace FileStore

/-- Opens the store in a directory, which is made if it is missing, with the blocks found there. -/
def openAt (dir : Path) (disk : Disk) : Except SyncError FileStore × Disk :=
  match disk.createDirectories dir with
  | .error e => (.error (.storage (.createDirectory e)), disk)
  | .ok disk =>
    match disk.list dir with
    | .error e => (.error (.storage (.listDirectory e)), disk)
    | .ok names =>
      match BlockFile.load disk dir names with
      | .error e => (.error (.io e), disk)
      | .ok blocks => (.ok ⟨dir, blocks, ∅⟩, disk)

/-- Queues a block. -/
def add (s : FileStore) (block : FilledBlock) : FileStore :=
  { s with blocks := s.blocks.add block, dirty := s.dirty.insert block.height }

/-- The path of the file for a height. -/
def path (s : FileStore) (height : Nat) : Path :=
  s.dir ++ [BlockFile.name height]

/-- Writes the block at a height, if there is one. -/
def writeBlock (s : FileStore) (height : Nat) (disk : Disk) : Except SyncError Unit × Disk :=
  match s.blocks.byHeight[height]? with
  | none => (.ok (), disk)
  | some block =>
    match disk.write (s.path height) (FilledBlock.binary.write block) with
    | (.ok (), disk) => (.ok (), disk)
    | (.error e, disk) => (.error (.storage (.writeBlock (BlockFile.name height) e)), disk)

/-- Writes the blocks at these heights up to the first failure; gives the heights not written. -/
def writeBlocks (s : FileStore) (disk : Disk) :
    List Nat → Except SyncError Unit × List Nat × Disk
  | [] => (.ok (), [], disk)
  | h :: hs =>
    match s.writeBlock h disk with
    | (.ok (), disk) => s.writeBlocks disk hs
    | (.error e, disk) => (.error e, h :: hs, disk)

/-- Writes every queued block. -/
def flush (s : FileStore) (disk : Disk) : Except SyncError Unit × FileStore × Disk :=
  let (result, unwritten, disk) := s.writeBlocks disk s.dirty.toList
  (result, { s with dirty := .ofList unwritten }, disk)

/-- Removes the files at these heights up to the first failure.  A file that is missing is as good
as removed. -/
def removeFiles (s : FileStore) (disk : Disk) : List Nat → Except SyncError Unit × Disk
  | [] => (.ok (), disk)
  | h :: hs =>
    match disk.removeFile (s.path h) with
    | (.ok (), disk) | (.error .notFound, disk) => s.removeFiles disk hs
    | (.error e, disk) => (.error (.storage (.removeBlock (BlockFile.name h) e)), disk)

/-- Removes every block at or above a height. -/
def removeFrom (s : FileStore) (height : Nat) (disk : Disk) :
    Except SyncError Unit × FileStore × Disk :=
  let (result, disk) := s.removeFiles disk (s.blocks.heightsFrom height)
  -- the blocks are forgotten even if a file of theirs stays
  (result, { s with
    blocks := s.blocks.below height
    dirty := s.dirty.filter (· < height) }, disk)

end FileStore
end WatchWallet
