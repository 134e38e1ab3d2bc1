/-!
# Keychain — Basic

One chain of addresses of an account, derived elsewhere, and how many of them are known to be used.
The used count is one more than the highest used position; it only grows, and never beyond the list.
-/

namespace WatchWallet

/-- A list of addresses in the order of their derivation. -/
structure Keychain where
  addresses : List String
  /-- The number of addresses up to the last used one. -/
  used : Nat
  used_le : used ≤ addresses.length

namespace Keychain

/-- The last position of an address in a list. -/
def lastIndex? (address : String) : List String → Option Nat
  | [] => none
  | a :: as =>
    match lastIndex? address as with
    | some i => some (i + 1)
    | none => if a = address then some 0 else none

theorem lastIndex?_lt {address : String} {as : List String} {i : Nat}
    (h : lastIndex? address as = some i) : i < as.length := by
  induction as generalizing i with
  | nil => simp [lastIndex?] at h
  | cons a as ih =>
    simp only [lastIndex?] at h
    split at h
    · rename_i j hj
      obtain rfl := Option.some.inj h
      exact Nat.succ_lt_succ (ih hj)
    · split at h
      · obtain rfl := Option.some.inj h
        exact Nat.succ_pos _
      · simp at h

/-- A keychain whose first `used` addresses are known to be used. -/
def ofList (addresses : List String) (used : Nat) : Keychain :=
  ⟨addresses, min used addresses.length, Nat.min_le_right ..⟩

/-- The number of addresses. -/
def size (k : Keychain) : Nat := k.addresses.length

/-- Whether there are no addresses. -/
def isEmpty (k : Keychain) : Bool := k.addresses.isEmpty

/-- The position of an address.  One that is listed twice has its last position. -/
def position? (k : Keychain) (address : String) : Option Nat :=
  lastIndex? address k.addresses

/-- Whether the keychain holds an address. -/
def contains (k : Keychain) (address : String) : Bool :=
  (k.position? address).isSome

/-- Up to `count` addresses from the position `start` on. -/
def range (k : Keychain) (start count : Nat) : List String :=
  (k.addresses.drop start).take count

/-- The keychain after an address received funds; one that it does not hold changes nothing. -/
def mark (k : Keychain) (address : String) : Keychain :=
  match h : k.position? address with
  | some i => { k with
      used := max k.used (i + 1)
      used_le := Nat.max_le.2 ⟨k.used_le, lastIndex?_lt h⟩ }
  | none => k

/-- The keychain after several addresses received funds. -/
def markAll (k : Keychain) (addresses : List String) : Keychain :=
  addresses.foldl mark k

@[simp] theorem addresses_mark (k : Keychain) (a : String) :
    (k.mark a).addresses = k.addresses := by
  unfold mark
  split <;> rfl

@[simp] theorem addresses_markAll (k : Keychain) (as : List String) :
    (k.markAll as).addresses = k.addresses := by
  induction as generalizing k with
  | nil => rfl
  | cons a as ih => simp [markAll, List.foldl_cons] at ih ⊢; rw [ih, addresses_mark]

/-- Marking never lowers the used count. -/
theorem used_le_used_mark (k : Keychain) (a : String) : k.used ≤ (k.mark a).used := by
  unfold mark
  split
  · exact Nat.le_max_left ..
  · exact Nat.le_refl _

end Keychain
end WatchWallet
