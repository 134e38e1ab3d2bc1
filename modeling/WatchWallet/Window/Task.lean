import WatchWallet.Event
import WatchWallet.Explorer.Basic
import WatchWallet.Keychain.Batch
import WatchWallet.Keychain.Chains

/-!
# Window — Task

One batch of addresses asked for over a range of heights, and what follows from its answer.  An
answer either breaks the contract of the explorer, finds nothing, or finds blocks.  Then a gap batch
is followed by the next gap batch from the lowest block on, and a cut answer by the same addresses
from its first height that may be incomplete.  What follows depends on the addresses of the chain
and the answer alone.
-/

namespace WatchWallet

/-- What stays the same during the scan of a window. -/
structure Plan where
  kind : WindowKind
  /-- The number of addresses in a gap batch. -/
  gap : Nat
  /-- The addresses of each chain. -/
  addresses : Chain → List String

/-- A batch of a chain and the heights it is asked for. -/
structure Task where
  chain : Chain
  batch : Batch
  /-- The hash of the block at the height `lo`, unless the chain is read from its beginning. -/
  start : Option String
  lo : Nat
  hi : Nat
deriving DecidableEq

/-- What an answer tells about the heights of its task. -/
inductive Finding where
  /-- Nothing is confirmed. -/
  | quiet
  /-- Blocks were found; through `lastFull` all transactions are known. -/
  | active (lowest highest : Block) (lastFull : Nat)

namespace Answer

/-- The blocks of the confirmed transactions. -/
def blocks (a : Answer) : List Block :=
  a.transactions.filterMap (·.block)

/-- The lowest block; of several at the same height, the first. -/
def lowest? (a : Answer) : Option Block :=
  match a.blocks with
  | [] => none
  | b :: bs => some (bs.foldl (fun low b => if b.height < low.height then b else low) b)

/-- The highest block; of several at the same height, the last. -/
def highest? (a : Answer) : Option Block :=
  match a.blocks with
  | [] => none
  | b :: bs => some (bs.foldl (fun high b => if b.height < high.height then high else b) b)

end Answer

namespace Task

/-- Whether there is anything to ask for. -/
def isLive (t : Task) : Bool :=
  !t.batch.isEmpty && t.lo ≤ t.hi

/-- What an answer tells, unless it breaks the contract of the explorer. -/
def judge (t : Task) (a : Answer) : Except Violation Finding :=
  match a.lowest?, a.highest? with
  | some low, some high =>
    if low.height.toNat < t.lo then .error (.belowStart low.hash low.height.toNat t.lo)
    else if a.truncated then
      -- the cut may go through the highest block, so only what lies below it is complete
      if high.height.toNat = t.lo then .error (.singleHeight t.lo)
      else .ok (.active low high (high.height.toNat - 1))
    else .ok (.active low high t.hi)
  | _, _ => .ok .quiet

/-- The confirmed transactions of an answer at heights that are completely known. -/
def accepted (t : Task) (f : Finding) (a : Answer) : List Transaction :=
  match f with
  | .quiet => []
  | .active _ _ lastFull =>
    a.transactions.filter fun tx => tx.height?.any (· ≤ min lastFull t.hi)

/-- The next gap batch, from the lowest block on. -/
def nextGap (p : Plan) (t : Task) (lowest : Block) : Task :=
  ⟨t.chain, t.batch.nextGap (p.addresses t.chain) p.gap, some lowest.hash, lowest.height.toNat,
    t.hi⟩

/-- The same addresses, from the first height that may be incomplete on. -/
def continuation (t : Task) (highest : Block) (lastFull : Nat) : Task :=
  ⟨t.chain, t.batch.continuation, some highest.hash, lastFull + 1, t.hi⟩

/-- The tasks that follow from an answer, the next gap first. -/
def children (p : Plan) (t : Task) (f : Finding) : List Task :=
  match f with
  | .quiet => []
  | .active lowest highest lastFull =>
    let gap := if t.batch.isGap then [t.nextGap p lowest] else []
    let rest := if lastFull < t.hi then [t.continuation highest lastFull] else []
    (gap ++ rest).filter isLive

/-- Whether a next gap batch follows from an answer that cannot be derived. -/
def overflows (p : Plan) (t : Task) (f : Finding) : Bool :=
  match f with
  | .quiet => false
  | .active _ _ _ => t.batch.isGap && !t.batch.nextFits p.gap

/-- What an answer tells, if it can be taken in. -/
def take (p : Plan) (t : Task) (a : Answer) : Except Stop Finding :=
  match t.judge a with
  | .error v => .error (.failed (.protocolViolation v))
  | .ok f => if t.overflows p f then .error .overflow else .ok f

theorem take_eq_ok_iff {p : Plan} {t : Task} {a : Answer} {f : Finding} :
    t.take p a = .ok f ↔ t.judge a = .ok f ∧ t.overflows p f = false := by
  unfold take
  cases t.judge a with
  | error v => simp
  | ok g =>
    dsimp only
    split
    · rename_i hover
      constructor
      · intro heq
        cases heq
      · rintro ⟨heq, hfits⟩
        cases heq
        cases hover.symm.trans hfits
    · rename_i hover
      constructor
      · intro heq
        cases heq
        exact ⟨rfl, Bool.eq_false_iff.2 hover⟩
      · rintro ⟨heq, -⟩
        cases heq
        rfl

end Task
end WatchWallet
