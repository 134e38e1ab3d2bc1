import WatchWallet.Event
import WatchWallet.Record.Basic

/-!
# Journal

The visible acts of a synchronization, in order: its events and its calls on the block stores.
-/

namespace WatchWallet

/-- One act. -/
inductive Act where
  | event (event : Event)
  | added (window : WindowKind) (block : FilledBlock)
  | flushed (window : WindowKind)
  | removedFrom (window : WindowKind) (height : Nat)
deriving DecidableEq

/-- Acts, the first one in front. -/
abbrev Journal := List Act

/-- The events of a journal. -/
def Journal.events (j : Journal) : List Event :=
  j.filterMap fun
    | .event e => some e
    | _ => none

end WatchWallet
