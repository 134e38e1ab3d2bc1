import WatchWallet.Error

/-!
# Event

What a synchronization tells while it runs, and how handlers are told.  Handlers are called in the
order of their registration; one that fails is noted in the log and stops no other.
-/

namespace WatchWallet

/-- Which of the two windows of a pass. -/
inductive WindowKind where
  /-- Heights deep enough to be final. -/
  | stable
  /-- Heights near the tip, scanned anew in each pass. -/
  | unstable
deriving DecidableEq

/-- The name of a window. -/
def WindowKind.name : WindowKind → String
  | stable => "Stable"
  | unstable => "Unstable"

/-- What happened. -/
inductive Event where
  | syncStarted (tip : Nat)
  /-- Every batch on a height has reported and its block is with the store. -/
  | blockFinalized (window : WindowKind) (height transactions : Nat)
  | windowCompleted (window : WindowKind) (lo hi blocksWritten : Nat)
  | pendingUpdated (count : Nat)
  | syncCompleted (tip : Nat)
  | syncFailed (error : String)
deriving DecidableEq

/-- How much a line of the log matters. -/
inductive LogLevel where
  | debug
  | info
  | warning
  | error
deriving DecidableEq

/-- A line of the log. -/
structure LogLine where
  level : LogLevel
  text : String
deriving DecidableEq

/-- An event as a line of the log. -/
def Event.logLine : Event → LogLine
  | syncStarted tip => ⟨.info, "Synchronization started, explorer tip at " ++ number tip⟩
  | blockFinalized window height transactions =>
    ⟨.debug, window.name ++ " block " ++ number height ++ " stored with " ++ number transactions ++
      " transactions"⟩
  | windowCompleted window lo hi blocksWritten =>
    ⟨.info, window.name ++ " window [" ++ number lo ++ ", " ++ number hi ++ "] synchronized, " ++
      number blocksWritten ++ " blocks written"⟩
  | pendingUpdated count => ⟨.info, number count ++ " pending transactions"⟩
  | syncCompleted tip => ⟨.info, "Synchronization completed up to " ++ number tip⟩
  | syncFailed error => ⟨.warning, "Synchronization failed: " ++ error⟩
where
  number (n : Nat) : String := String.ofList (Text.digits n)

/-- What a handler does about an event: the notes it takes, the lines it logs, and whether it
fails. -/
structure Reaction (α : Type) where
  notes : List α := []
  lines : List LogLine := []
  failure? : Option SyncError := none

/-- A handler of events. -/
structure EventHandler (α : Type) where
  name : String
  handle : Event → Reaction α

/-- The handler that writes every event to the log. -/
def EventHandler.logging {α : Type} : EventHandler α where
  name := "LoggingEventHandler"
  handle e := { lines := [e.logLine] }

/-- The handlers in the order of their registration. -/
structure Dispatcher (α : Type) where
  handlers : List (EventHandler α)

namespace Dispatcher

variable {α : Type}

/-- No handler is registered. -/
def empty : Dispatcher α := ⟨[]⟩

/-- Adds a handler after all others. -/
def register (d : Dispatcher α) (h : EventHandler α) : Dispatcher α × List LogLine :=
  (⟨d.handlers ++ [h]⟩, [⟨.debug, "Registering sync event handler " ++ h.name⟩])

/-- The lines that one handler leaves in the log. -/
def linesOf (h : EventHandler α) (e : Event) : List LogLine :=
  let reaction := h.handle e
  reaction.lines ++ (reaction.failure?.map fun error =>
    ⟨.error, "Handler " ++ h.name ++ " failed to process event: " ++ error.message⟩).toList

/-- Tells every handler; gives their notes and the lines of the log. -/
def dispatch (d : Dispatcher α) (e : Event) : List α × List LogLine :=
  (d.handlers.flatMap fun h => (h.handle e).notes, d.handlers.flatMap fun h => linesOf h e)

end Dispatcher
end WatchWallet
