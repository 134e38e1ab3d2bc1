/-!
# Window — Tracker

How many batches are still out on each height of a window.  A height is pending with a count; the
report that brings the count to zero completes it, and it never becomes pending again.  Each height
is a machine of its own.
-/

namespace WatchWallet

/-- The state of one height. -/
inductive HeightState where
  /-- This many registered batches have not reported. -/
  | pending (count : Nat)
  /-- The last batch has reported; its block is on the way to the store. -/
  | finalizing
  /-- The block has been handed to the store. -/
  | finalized
deriving DecidableEq

namespace HeightState

/-- One more batch is out; a complete height takes no more. -/
def register : HeightState → HeightState
  | pending n => pending (n + 1)
  | s => s

/-- One batch reports.  Without a batch that is out nothing changes. -/
def report : HeightState → HeightState
  | pending 0 => pending 0
  | pending 1 => finalizing
  | pending (n + 2) => pending (n + 1)
  | s => s

/-- Whether the next report completes the height. -/
def isLast : HeightState → Bool
  | pending 1 => true
  | _ => false

/-- The block is with the store. -/
def settle : HeightState → HeightState
  | finalizing => finalized
  | s => s

/-- Whether the last batch has reported. -/
def isComplete : HeightState → Bool
  | pending _ => false
  | finalizing | finalized => true

end HeightState

/-- The states of the heights from `lo` on. -/
structure Tracker where
  lo : Nat
  states : Array HeightState

namespace Tracker

/-- The tracker of the heights from `lo` to `hi`, nothing being out. -/
def ofBounds (lo hi : Nat) : Tracker :=
  ⟨lo, Array.replicate (hi + 1 - lo) (.pending 0)⟩

/-- The state of a height of the window. -/
def state? (t : Tracker) (height : Nat) : Option HeightState :=
  if t.lo ≤ height then t.states[height - t.lo]? else none

/-- Changes the state of one height; outside the window nothing changes.  The tracker is taken apart
first, so that the array has no other owner and is changed in place. -/
def update (t : Tracker) (height : Nat) (f : HeightState → HeightState) : Tracker :=
  match t with
  | ⟨lo, states⟩ => if lo ≤ height then ⟨lo, states.modify (height - lo) f⟩ else ⟨lo, states⟩

/-- A batch goes out on the heights from `lo` to `hi`. -/
def register (t : Tracker) (lo hi : Nat) : Tracker :=
  (List.range' lo (hi + 1 - lo)).foldl (fun t h => t.update h .register) t

/-- Whether the next report on a height completes it. -/
def isLast (t : Tracker) (height : Nat) : Bool :=
  (t.state? height).any (·.isLast)

/-- A batch reports on a height. -/
def report (t : Tracker) (height : Nat) : Tracker :=
  t.update height .report

/-- The block of a height is with the store. -/
def settle (t : Tracker) (height : Nat) : Tracker :=
  t.update height .settle

/-- Whether the last batch has reported. -/
def isComplete (t : Tracker) (height : Nat) : Bool :=
  (t.state? height).any (·.isComplete)

/-- The heights that are not complete, in ascending order; their number is taken in 32 bits. -/
def unfinalized (t : Tracker) : List Nat :=
  (List.range' t.lo (t.states.size % UInt32.size)).filter fun h => !t.isComplete h

/-- A height changes only where it is updated. -/
theorem state?_update (t : Tracker) (height h : Nat) (f : HeightState → HeightState) :
    (t.update height f).state? h =
      if h = height then (t.state? h).map f else t.state? h := by
  unfold update state?
  by_cases hlo : t.lo ≤ height
  · simp only [hlo, if_true]
    by_cases hh : t.lo ≤ h
    · simp only [hh, if_true, Array.getElem?_modify]
      by_cases he : h = height
      · subst he; simp
      · have : height - t.lo ≠ h - t.lo := by omega
        simp [he, this]
    · have : h ≠ height := by omega
      simp [hh, this]
  · simp only [hlo, if_false]
    by_cases he : h = height
    · subst he; simp [hlo]
    · simp [he]

@[simp] theorem lo_update (t : Tracker) (height : Nat) (f : HeightState → HeightState) :
    (t.update height f).lo = t.lo := by
  dsimp only [update]
  split <;> rfl

@[simp] theorem size_update (t : Tracker) (height : Nat) (f : HeightState → HeightState) :
    (t.update height f).states.size = t.states.size := by
  dsimp only [update]
  split <;> simp

end Tracker
end WatchWallet
