import WatchWallet.Error
import WatchWallet.Record.Format
import WatchWallet.Store.Blocks
import WatchWallet.Store.Disk

/-!
# Store — Block file

One file a block, named for the height with ten digits.  Any number of digits is read back, also
after a plus sign; a file whose block does not decode or lies at another height is passed over.
-/

namespace WatchWallet.BlockFile

/-- The front of a name. -/
def nameStart : List Char := "block_".toList

/-- The end of a name. -/
def nameEnd : List Char := ".bin".toList

/-- The name of the file for a height. -/
def name (height : Nat) : String :=
  String.ofList (nameStart ++ Text.padLeft 10 (Text.digits height) ++ nameEnd)

/-- What stands between the two fixed parts of a name. -/
def middle? (cs : List Char) : Option (List Char) :=
  if nameStart.isPrefixOf cs then
    let rest := cs.drop nameStart.length
    if nameEnd.isSuffixOf rest then some (rest.take (rest.length - nameEnd.length)) else none
  else none

/-- The height in a name, if the name is that of a block file. -/
def height? (fileName : String) : Option Nat :=
  (middle? fileName.toList).bind Text.uint32?

/-- The block in a file named for a height, if the file holds it. -/
def block? (height : Nat) (content : Bytes) : Option FilledBlock :=
  match FilledBlock.binary.decode content with
  | .ok block => if block.height = height then some block else none
  | .error _ => none

/-- Loads a file of a directory over the blocks loaded so far, if it is named for a height. -/
def loadOne (disk : Disk) (dir : Path) (blocks : Blocks) (fileName : String) :
    Except DiskError Blocks :=
  match height? fileName with
  | none => .ok blocks
  | some height => do
    let content ← disk.read (dir ++ [fileName])
    -- what is torn, or holds the block of another height, is passed over
    match block? height content with
    | some block => return blocks.add block
    | none => return blocks

/-- Loads the named files of a directory, one after the other. -/
def load (disk : Disk) (dir : Path) (names : List String) : Except DiskError Blocks :=
  names.foldlM (loadOne disk dir) .empty

end WatchWallet.BlockFile
