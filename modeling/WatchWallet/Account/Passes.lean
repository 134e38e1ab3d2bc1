/-!
# Account — Passes

The passes that were asked for.  A pass is a computation that goes on while one of its handles is polled:
one poll at a time takes it further, and its outcome is the same for all of them.  The slot holds the pass
in flight, and a request joins it; the pass empties the slot itself when its code has ended, before its
outcome is handed out.
-/

namespace WatchWallet

namespace Passes

/-- Where a pass with outcomes of type `α` stands. -/
inductive Stage (α : Type) where
  /-- It has not ended, and nobody is polling it. -/
  | waiting
  /-- Its code runs, for the handle that is polling it. -/
  | running
  /-- Its code has ended, and the slot is to be emptied. -/
  | ended (outcome : α)
  /-- The slot is empty again, and the outcome is to be handed out. -/
  | leaving (outcome : α)
  /-- Whoever polls it is given its outcome. -/
  | complete (outcome : α)
deriving DecidableEq

end Passes

/-- The passes over one account, with outcomes of type `α`.  Passes are numbered from zero in the order in
which they are created, and the handles of a pass are its number. -/
structure Passes (α : Type) where
  /-- The slot: the pass that was asked for and has not left. -/
  inFlight : Option Nat
  /-- Where the passes stand, by number. -/
  stages : List (Passes.Stage α)

namespace Passes

variable {α τ : Type}

/-- No pass was asked for. -/
def empty : Passes α := ⟨none, []⟩

/-- Asks for a pass: the handle of the one in flight, or of a new one. -/
def request (p : Passes α) : Nat × Passes α :=
  match p.inFlight with
  | some n => (n, p)
  | none => (p.stages.length, ⟨some p.stages.length, p.stages ++ [.waiting]⟩)

/-- Whether a pass is in flight. -/
def isBusy (p : Passes α) : Bool := p.inFlight.isSome

/-- What a handle gives to whoever polls it, once its pass is complete. -/
def outcome? (p : Passes α) (n : Nat) : Option α :=
  match p.stages[n]? with
  | some (.complete outcome) => some outcome
  | _ => none

/-- Puts a pass at another stage. -/
def put (p : Passes α) (n : Nat) (stage : Stage α) : Passes α :=
  { p with stages := p.stages.set n stage }

/-! ### The steps of a poll

The code of a pass is given by what a poll makes of it: `go n` takes the pass with number `n` further, in
a world that also keeps what suspended passes remember, and gives its outcome if it ends. -/

/-- A poll begins, unless another one is on its way or the code has ended. -/
def enter (p : Passes α) (n : Nat) : Passes α :=
  match p.stages[n]? with
  | some .waiting => p.put n .running
  | _ => p

/-- The code runs until it has to wait or has ended. -/
def resume (go : Nat → τ → Option α × τ) (p : Passes α) (n : Nat) (t : τ) : Passes α × τ :=
  match p.stages[n]? with
  | some .running =>
    match go n t with
    | (none, t) => (p.put n .waiting, t)
    | (some outcome, t) => (p.put n (.ended outcome), t)
  | _ => (p, t)

/-- A pass whose code has ended empties the slot, whatever its outcome is and whatever the slot holds. -/
def release (p : Passes α) (n : Nat) : Passes α :=
  match p.stages[n]? with
  | some (.ended outcome) => { p.put n (.leaving outcome) with inFlight := none }
  | _ => p

/-- The outcome of a pass that has left the slot is there for all its handles. -/
def publish (p : Passes α) (n : Nat) : Passes α :=
  match p.stages[n]? with
  | some (.leaving outcome) => p.put n (.complete outcome)
  | _ => p

/-- Polls a handle while nothing else goes on: the outcome, if the pass is complete then. -/
def poll (go : Nat → τ → Option α × τ) (p : Passes α) (n : Nat) (t : τ) : Option α × Passes α × τ :=
  match p.stages[n]? with
  | some .waiting =>
    let (p, t) := (p.enter n).resume go n t
    let p := (p.release n).publish n
    (p.outcome? n, p, t)
  | _ => (p.outcome? n, p, t)

/-- Waits for a pass whose code runs to its end in one poll.  A number that was not given out stands for a
run of its own. -/
def await (p : Passes α) (n : Nat) (run : τ → α × τ) (t : τ) : α × Passes α × τ :=
  match p.poll (fun _ t => (run t).map some id) n t with
  | (some outcome, p, t) => (outcome, p, t)
  | (none, p, t) =>
    let (outcome, t) := run t
    (outcome, p, t)

end Passes
end WatchWallet
