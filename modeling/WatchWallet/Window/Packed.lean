import WatchWallet.Window.Tracker

/-!
# Window — Packed

A tracker that keeps the state of a height in one 64-bit word, so that a height changes by a single
exchange of its word.  The two largest words are those of a complete height, and any other word is a
count.  Heights have 32 bits.
-/

namespace WatchWallet

namespace HeightState

/-- The word of a height whose block is on the way to the store. -/
def finalizingWord : UInt64 := 0xFFFFFFFFFFFFFFFE

/-- The word of a height whose block is with the store. -/
def finalizedWord : UInt64 := 0xFFFFFFFFFFFFFFFF

/-- The state that a word stands for. -/
def ofWord (w : UInt64) : HeightState :=
  if w = finalizedWord then finalized
  else if w = finalizingWord then finalizing
  else pending w.toNat

/-- The word after a registration, if there is an exchange. -/
def registered? (w : UInt64) : Option UInt64 :=
  if finalizingWord ≤ w then none else some (w + 1)

/-- The word after a report, if there is an exchange. -/
def reported? (w : UInt64) : Option UInt64 :=
  if w = 0 ∨ w = finalizingWord ∨ w = finalizedWord then none
  else if w = 1 then some finalizingWord
  else some (w - 1)

/-- The word after the block has come to the store, if there is an exchange. -/
def settled? (w : UInt64) : Option UInt64 :=
  if w = finalizingWord then some finalizedWord else none

end HeightState

/-- The words of the heights from `lo` on. -/
structure PackedTracker where
  lo : UInt32
  words : Array UInt64

namespace PackedTracker

/-- The tracker of the heights from `lo` to `hi`, nothing being out. -/
def ofBounds (lo hi : UInt32) : PackedTracker :=
  ⟨lo, Array.replicate (if hi < lo then 0 else (hi - lo).toNat + 1) 0⟩

/-- The word of a height of the window. -/
def word? (t : PackedTracker) (height : UInt32) : Option UInt64 :=
  if t.lo ≤ height then t.words[(height - t.lo).toNat]? else none

/-- Exchanges the word of one height; outside the window nothing changes. -/
def exchange (t : PackedTracker) (height : UInt32) (next? : UInt64 → Option UInt64) : PackedTracker :=
  match t with
  | ⟨lo, words⟩ =>
    if lo ≤ height then ⟨lo, words.modify (height - lo).toNat fun w => (next? w).getD w⟩
    else ⟨lo, words⟩

/-- A batch goes out on the heights from `lo` to `hi`. -/
def register (t : PackedTracker) (lo hi : UInt32) : PackedTracker :=
  (List.range' lo.toNat (hi.toNat + 1 - lo.toNat)).foldl
    (fun t h => t.exchange (.ofNat h) HeightState.registered?) t

/-- A batch reports on a height; tells whether the report completes it. -/
def report (t : PackedTracker) (height : UInt32) : Bool × PackedTracker :=
  ((t.word? height).any fun w => (HeightState.reported? w).isSome && w == 1,
    t.exchange height HeightState.reported?)

/-- The block of a height is with the store. -/
def settle (t : PackedTracker) (height : UInt32) : PackedTracker :=
  t.exchange height HeightState.settled?

/-- The state of a height of the window. -/
def state? (t : PackedTracker) (height : UInt32) : Option HeightState :=
  (t.word? height).map .ofWord

/-- Whether the last batch has reported. -/
def isComplete (t : PackedTracker) (height : UInt32) : Bool :=
  (t.state? height).any (·.isComplete)

/-- The heights that are not complete, in ascending order; their number is taken in 32 bits. -/
def unfinalized (t : PackedTracker) : List UInt32 :=
  ((List.range t.words.size.toUInt32.toNat).map fun offset => t.lo + .ofNat offset).filter
    fun h => !t.isComplete h

/-- The same heights with their states, none of them in a word. -/
def unpack (t : PackedTracker) : Tracker :=
  ⟨t.lo.toNat, t.words.map .ofWord⟩

end PackedTracker
end WatchWallet
