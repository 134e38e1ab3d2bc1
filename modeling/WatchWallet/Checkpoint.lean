import WatchWallet.Record.Format

/-!
# Checkpoint

The height through which the stable part of a chain is synchronized.
-/

namespace WatchWallet

/-- How far the stable window has been synchronized. -/
structure Checkpoint where
  height : UInt32
  /-- The hash of the block at that height when the checkpoint was taken. -/
  hash : String
  savedAt : Instant
deriving DecidableEq

namespace Checkpoint

/-- The members as nested pairs. -/
def parts (c : Checkpoint) : UInt32 × String × Instant × Unit :=
  (c.height, c.hash, c.savedAt, ())

/-- The value with these members. -/
def ofParts : UInt32 × String × Instant × Unit → Checkpoint
  | (height, hash, savedAt, ()) => ⟨height, hash, savedAt⟩

/-- The JSON form. -/
def json : Json.Format Checkpoint :=
  Json.Members.format (.cons ⟨"height", .uint32, .required, []⟩
    (.cons ⟨"hash", .text, .required, []⟩
    (.cons ⟨"saved_at", .instant, .required, []⟩ .nil))) "StableCheckpoint" ofParts parts

/-- The binary form. -/
def binary : Binary.Format Checkpoint :=
  (Binary.Format.uint32.pair (Binary.Format.text.pair (Binary.Format.instant.pair .unit))).map
    ofParts parts

end Checkpoint
end WatchWallet
