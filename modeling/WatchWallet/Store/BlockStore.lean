import WatchWallet.Store.FileStore

/-!
# Store — Block store

A place for the blocks of an account, in memory only or with files.  Both answer alike; in memory,
nothing can fail.
-/

namespace WatchWallet

/-- A place for blocks. -/
inductive BlockStore where
  | memory (blocks : Blocks)
  | file (store : FileStore)

namespace BlockStore

/-- The blocks as they are held in memory. -/
def blocks : BlockStore → Blocks
  | memory blocks => blocks
  | file store => store.blocks

/-- Adds a block.  It lasts once it is flushed. -/
def add : BlockStore → FilledBlock → BlockStore
  | memory blocks, block => memory (blocks.add block)
  | file store, block => file (store.add block)

/-- Makes every added block last. -/
def flush : BlockStore → Disk → Except SyncError Unit × BlockStore × Disk
  | memory blocks, disk => (.ok (), memory blocks, disk)
  | file store, disk =>
    let (result, store, disk) := store.flush disk
    (result, file store, disk)

/-- Removes every block at or above a height. -/
def removeFrom : BlockStore → Nat → Disk → Except SyncError Unit × BlockStore × Disk
  | memory blocks, height, disk => (.ok (), memory (blocks.below height), disk)
  | file store, height, disk =>
    let (result, store, disk) := store.removeFrom height disk
    (result, file store, disk)

end BlockStore
end WatchWallet
