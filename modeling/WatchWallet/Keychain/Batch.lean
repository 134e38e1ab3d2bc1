import WatchWallet.Keychain.Basic

/-!
# Keychain — Batch

The addresses that go into one request.  A scan starts with the used addresses in regular batches
and a gap batch after them; from a gap batch it moves on to the next, as wide as the gap.  The
position behind a batch is a sum of 32 bits, so a batch can be derived only if it fits (`Batch.fits`).
-/

namespace WatchWallet

/-- Whether a batch holds used addresses or looks past them. -/
inductive BatchKind where
  | regular
  | gap
deriving DecidableEq

/-- Addresses that are asked for together. -/
structure Batch where
  addresses : List String
  /-- The position of the last address asked for, whether or not the chain has it. -/
  last : Nat
  kind : BatchKind
deriving DecidableEq

namespace Batch

/-- The batch of `count` addresses of a chain from the position `start` on. -/
def derive (chain : List String) (start count : Nat) (kind : BatchKind) : Batch :=
  ⟨(chain.drop start).take count, start + count - 1, kind⟩

/-- Whether the position behind `count` addresses from the position `start` on is a number of
32 bits. -/
def fits (start count : Nat) : Bool := start + count < UInt32.size

/-- Whether there is nothing to ask for. -/
def isEmpty (b : Batch) : Bool := b.addresses.isEmpty

/-- Whether the batch looks past the used addresses. -/
def isGap (b : Batch) : Bool := b.kind = .gap

/-- The same addresses, no longer in search of a gap. -/
def continuation (b : Batch) : Batch :=
  { b with kind := .regular }

/-- The gap batch right after this one. -/
def nextGap (b : Batch) (chain : List String) (width : Nat) : Batch :=
  derive chain (b.last + 1) width .gap

/-- Whether the gap batch right after this one can be derived. -/
def nextFits (b : Batch) (width : Nat) : Bool := fits (b.last + 1) width

/-- The regular batches of the first `used` addresses, `width` in each but the last.  Of width zero
there are none. -/
def regulars (chain : List String) (width used : Nat) : List Batch :=
  (List.range ((used + width - 1) / width)).map fun i =>
    derive chain (i * width) (min width (used - i * width)) .regular

/-- The batches that a scan of a chain starts with. -/
def bootstrap (k : Keychain) (width gap : Nat) : List Batch :=
  regulars k.addresses width k.used ++ [derive k.addresses k.used gap .gap]

/-- Whether these batches can be derived.  The regular ones end where the gap batch starts. -/
def bootstrapFits (k : Keychain) (gap : Nat) : Bool := fits k.used gap

end Batch
end WatchWallet
