import WatchWallet.Text.Digits

/-!
# Window — Progress

What a window asked for and stored, and the summary of a whole pass.
-/

namespace WatchWallet

/-- The counters of one window. -/
structure Progress where
  /-- The number of answered requests. -/
  requests : Nat := 0
  /-- The number of transactions in their answers. -/
  received : Nat := 0
  blocks : Nat := 0
  /-- The number of transactions in the stored blocks. -/
  written : Nat := 0
deriving DecidableEq

namespace Progress

/-- One more request was answered, with this many transactions. -/
def countRequest (p : Progress) (transactions : Nat) : Progress :=
  { p with requests := p.requests + 1, received := p.received + transactions }

/-- One more block was stored, with this many transactions. -/
def countBlock (p : Progress) (transactions : Nat) : Progress :=
  { p with blocks := p.blocks + 1, written := p.written + transactions }

end Progress

/-- The counters of the window from `lo` to `hi`. -/
structure WindowStats extends Progress where
  lo : Nat
  hi : Nat
deriving DecidableEq

namespace WindowStats

/-- Nothing was done. -/
def idle (lo hi : Nat) : WindowStats := { lo, hi }

/-- A window in words. -/
def describe (w : WindowStats) : List Char :=
  " [".toList ++ Text.digits w.lo ++ ", ".toList ++ Text.digits w.hi ++ "]: ".toList ++
    Text.digits w.requests ++ " requests, ".toList ++ Text.digits w.blocks ++ " blocks, ".toList ++
    Text.digits w.written ++ " transactions".toList

end WindowStats

/-- What one pass did. -/
structure SyncStats where
  tip : Nat
  stable : Option WindowStats := none
  unstable : Option WindowStats := none
  pending : Nat := 0
deriving DecidableEq

namespace SyncStats

/-- The windows of the pass. -/
def windows (s : SyncStats) : List WindowStats :=
  s.stable.toList ++ s.unstable.toList

/-- The number of answered requests in all windows. -/
def explorerRequests (s : SyncStats) : Nat :=
  s.windows.foldl (fun total w => total + w.requests) 0

/-- The number of stored blocks in all windows. -/
def blocksWritten (s : SyncStats) : Nat :=
  s.windows.foldl (fun total w => total + w.blocks) 0

/-- A window of the pass in words, after its name. -/
def describe (name : String) (window? : Option WindowStats) : List Char :=
  name.toList ++
    match window? with
    | some w => w.describe
    | none => ": skipped".toList

/-- The pass in one line. -/
def summary (s : SyncStats) : String :=
  String.ofList ("Sync to ".toList ++ Text.digits s.tip ++ ": ".toList ++
    describe "stable" s.stable ++ "; ".toList ++ describe "unstable" s.unstable ++ "; ".toList ++
    Text.digits s.pending ++ " pending transactions".toList)

end SyncStats
end WatchWallet
