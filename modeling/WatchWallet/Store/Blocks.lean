import Std.Data.ExtTreeMap
import WatchWallet.Record.Basic

/-!
# Store — Blocks

The blocks of an account by height, in memory.  A block takes the place of one at the same height.
-/

namespace WatchWallet

/-- Blocks by height. -/
structure Blocks where
  byHeight : Std.ExtTreeMap Nat FilledBlock

namespace Blocks

/-- No blocks. -/
def empty : Blocks := ⟨∅⟩

/-- Adds a block at its height. -/
def add (b : Blocks) (block : FilledBlock) : Blocks :=
  ⟨b.byHeight.insert block.height block⟩

/-- All blocks, in ascending order. -/
def toList (b : Blocks) : List FilledBlock :=
  b.byHeight.toList.map (·.2)

/-- The header of the highest block. -/
def last? (b : Blocks) : Option Block :=
  b.toList.getLast?.map (·.header)

/-- The blocks with a height between two bounds, in ascending order. -/
def between (b : Blocks) (lo hi : Nat) : List FilledBlock :=
  (b.byHeight.toList.filter fun (h, _) => lo ≤ h && h ≤ hi).map (·.2)

/-- The blocks below a height. -/
def below (b : Blocks) (height : Nat) : Blocks :=
  ⟨b.byHeight.filter fun h _ => h < height⟩

/-- The heights at or above a height, in ascending order. -/
def heightsFrom (b : Blocks) (height : Nat) : List Nat :=
  b.byHeight.keys.filter (height ≤ ·)

/-- The number of blocks. -/
def size (b : Blocks) : Nat := b.byHeight.size

/-- Whether there are no blocks. -/
def isEmpty (b : Blocks) : Bool := b.byHeight.isEmpty

end Blocks
end WatchWallet
