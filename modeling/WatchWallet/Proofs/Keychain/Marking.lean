import Mathlib.Order.Bounds.Defs
import WatchWallet.Keychain.Chains

/-!
# Keychain — Marking

What marking does to the used counts of an account: they only grow (`used_le_used_markAll`), they pass
every address that is marked (`lt_used_markAll`), and they go no further (`used_markAll_le`), so the
order of the marks does not matter (`used_markAll_eq`).  A count is the old one or ends at an address that
is marked (`isGreatest_used_markAll`).  Whatever an account marks, its addresses stay
(`Chains.grows_markAll`); each of its chains is marked on its own (`Chains.get_markAll`).
-/

namespace WatchWallet

namespace Keychain

/-- An address that stands at an index has its last position there or behind. -/
theorem exists_lastIndex? {as : List String} {i : Nat} {a : String} (h : as[i]? = some a) :
    ∃ j, lastIndex? a as = some j ∧ i ≤ j := by
  induction as generalizing i with
  | nil => cases h
  | cons b bs ih =>
      rw [lastIndex?]
      cases i with
      | zero =>
          obtain rfl : b = a := Option.some.inj h
          cases lastIndex? b bs with
          | none => exact ⟨0, by simp, Nat.le_refl _⟩
          | some j => exact ⟨j + 1, rfl, Nat.zero_le _⟩
      | succ i =>
          obtain ⟨j, hj, hle⟩ := ih h
          exact ⟨j + 1, by rw [hj], Nat.succ_le_succ hle⟩

/-- The last position of an address holds it. -/
theorem getElem?_of_lastIndex? {as : List String} {j : Nat} {a : String}
    (h : lastIndex? a as = some j) : as[j]? = some a := by
  induction as generalizing j with
  | nil => cases h
  | cons b bs ih =>
      rw [lastIndex?] at h
      split at h
      · rename_i i hi
        obtain rfl := Option.some.inj h
        exact ih hi
      · split at h
        · rename_i he
          obtain rfl := Option.some.inj h
          exact congrArg some he
        · cases h

/-- A keychain contains the addresses in its list. -/
theorem contains_iff {k : Keychain} {a : String} : k.contains a = true ↔ a ∈ k.addresses := by
  rw [contains, Option.isSome_iff_exists]
  constructor
  · rintro ⟨i, hi⟩
    exact List.mem_of_getElem? (getElem?_of_lastIndex? hi)
  · intro h
    obtain ⟨i, hi⟩ := List.mem_iff_getElem?.1 h
    obtain ⟨j, hj, -⟩ := exists_lastIndex? hi
    exact ⟨j, hj⟩

theorem mark_of_not_contains {k : Keychain} {a : String} (h : k.contains a = false) :
    k.mark a = k := by
  unfold mark
  split
  · rename_i i hi
    rw [contains, hi] at h
    cases h
  · rfl

theorem lt_used_mark {k : Keychain} {i : Nat} {a : String} (h : k.addresses[i]? = some a) :
    i < (k.mark a).used := by
  obtain ⟨j, hj, hle⟩ := exists_lastIndex? h
  unfold mark
  split
  · rename_i j' hj'
    obtain rfl := Option.some.inj (hj.symm.trans hj')
    exact Nat.lt_of_lt_of_le (Nat.lt_succ_of_le hle) (Nat.le_max_right ..)
  · rename_i hnone
    cases hj.symm.trans hnone

theorem used_le_used_markAll (k : Keychain) (as : List String) : k.used ≤ (k.markAll as).used := by
  induction as generalizing k with
  | nil => exact Nat.le_refl _
  | cons a as ih => exact Nat.le_trans (used_le_used_mark k a) (ih (k.mark a))

theorem lt_used_markAll {k : Keychain} {i : Nat} {a : String} (h : k.addresses[i]? = some a)
    {as : List String} (ha : a ∈ as) : i < (k.markAll as).used := by
  induction as generalizing k with
  | nil => cases ha
  | cons b bs ih =>
      rcases List.mem_cons.1 ha with rfl | ha
      · exact Nat.lt_of_lt_of_le (lt_used_mark h) (used_le_used_markAll (k.mark a) bs)
      · exact ih (k := k.mark b) (by rwa [addresses_mark]) ha

/-- Marking an address reaches no further than its positions. -/
theorem used_mark_le {k : Keychain} {a : String} {m : Nat} (hused : k.used ≤ m)
    (ha : ∀ {i}, k.addresses[i]? = some a → i < m) : (k.mark a).used ≤ m := by
  unfold mark
  split
  · rename_i i hi
    exact Nat.max_le.2 ⟨hused, ha (getElem?_of_lastIndex? hi)⟩
  · exact hused

theorem used_markAll_le {k : Keychain} {as : List String} {m : Nat} (hused : k.used ≤ m)
    (has : ∀ {a i}, a ∈ as → k.addresses[i]? = some a → i < m) : (k.markAll as).used ≤ m := by
  induction as generalizing k with
  | nil => exact hused
  | cons b bs ih =>
      refine ih (k := k.mark b) (used_mark_le hused fun hi => has List.mem_cons_self hi) ?_
      intro a i ha hi
      rw [addresses_mark] at hi
      exact has (List.mem_cons_of_mem _ ha) hi

/-- After a mark the count is the old one, or it ends at a position of the address. -/
theorem used_mark_cases (k : Keychain) (a : String) :
    (k.mark a).used = k.used ∨ ∃ i, k.addresses[i]? = some a ∧ (k.mark a).used = i + 1 := by
  unfold mark
  split
  · rename_i i hi
    rcases Nat.le_total (i + 1) k.used with hle | hle
    · exact .inl (Nat.max_eq_left hle)
    · exact .inr ⟨i, getElem?_of_lastIndex? hi, Nat.max_eq_right hle⟩
  · exact .inl rfl

theorem used_markAll_cases (k : Keychain) (as : List String) :
    (k.markAll as).used = k.used ∨
      ∃ a ∈ as, ∃ i, k.addresses[i]? = some a ∧ (k.markAll as).used = i + 1 := by
  induction as generalizing k with
  | nil => exact .inl rfl
  | cons b bs ih =>
      rcases ih (k.mark b) with hsame | ⟨a, ha, i, hi, hused⟩
      · rcases used_mark_cases k b with hold | ⟨i, hi, hused⟩
        · exact .inl (hsame.trans hold)
        · exact .inr ⟨b, List.mem_cons_self, i, hi, hsame.trans hused⟩
      · rw [addresses_mark] at hi
        exact .inr ⟨a, List.mem_cons_of_mem _ ha, i, hi, hused⟩

/-- **The used count after marks** is the greatest of the old one and of those that end at an address that
is marked. -/
theorem isGreatest_used_markAll (k : Keychain) (as : List String) :
    IsGreatest {m | m = k.used ∨ ∃ a ∈ as, ∃ i, k.addresses[i]? = some a ∧ m = i + 1}
      (k.markAll as).used := by
  refine ⟨used_markAll_cases k as, ?_⟩
  rintro m (rfl | ⟨a, ha, i, hi, rfl⟩)
  · exact used_le_used_markAll k as
  · exact lt_used_markAll hi ha

/-- Which addresses are marked matters, not their order. -/
theorem used_markAll_eq {k : Keychain} {as bs : List String} (hsame : ∀ {a}, a ∈ as ↔ a ∈ bs) :
    (k.markAll as).used = (k.markAll bs).used := by
  refine Nat.le_antisymm (used_markAll_le (used_le_used_markAll k bs) fun ha hi => ?_)
    (used_markAll_le (used_le_used_markAll k as) fun hb hi => ?_)
  · exact lt_used_markAll hi (hsame.1 ha)
  · exact lt_used_markAll hi (hsame.2 hb)

theorem markAll_append (k : Keychain) (as bs : List String) :
    k.markAll (as ++ bs) = (k.markAll as).markAll bs :=
  List.foldl_append

end Keychain

namespace Chains

theorem get_update (cs : Chains) (c c' : Chain) (f : Keychain → Keychain) :
    (cs.update c f).get c' = if c = c' then f (cs.get c') else cs.get c' := by
  cases c <;> cases c' <;> rfl

/-- The same addresses, of which as many are known to be used, or more. -/
def Grows (cs cs' : Chains) : Prop :=
  ∀ c, (cs'.get c).addresses = (cs.get c).addresses ∧ (cs.get c).used ≤ (cs'.get c).used

theorem Grows.refl (cs : Chains) : cs.Grows cs :=
  fun _ => ⟨rfl, Nat.le_refl _⟩

theorem Grows.trans {cs cs' cs'' : Chains} (h : cs.Grows cs') (h' : cs'.Grows cs'') :
    cs.Grows cs'' :=
  fun c => ⟨(h' c).1.trans (h c).1, Nat.le_trans (h c).2 (h' c).2⟩

theorem grows_update (cs : Chains) (c : Chain) (a : String) :
    cs.Grows (cs.update c (·.mark a)) := by
  intro c'
  rw [get_update]
  split
  · exact ⟨Keychain.addresses_mark _ a, Keychain.used_le_used_mark _ a⟩
  · exact ⟨rfl, Nat.le_refl _⟩

theorem grows_mark (cs : Chains) (a : String) : cs.Grows (cs.mark a) := by
  rw [mark]
  split
  · exact grows_update cs .receive a
  · exact grows_update cs .change a

theorem grows_markAll (cs : Chains) (as : List String) : cs.Grows (as.foldl mark cs) := by
  induction as generalizing cs with
  | nil => exact .refl cs
  | cons a as ih => exact (grows_mark cs a).trans (ih (cs.mark a))

/-- Whether an address is marked in a chain.  In the one for change it is not if the receiving one
holds it. -/
def marks (cs : Chains) : Chain → String → Bool
  | .receive, _ => true
  | .change, a => !cs.receive.contains a

theorem marks_iff {cs : Chains} {c : Chain} {a : String} :
    cs.marks c a = true ↔ (c = .change → a ∉ cs.receive.addresses) := by
  cases c with
  | receive => exact iff_of_true rfl (nomatch ·)
  | change => rw [marks, ← Keychain.contains_iff, Bool.not_eq_true']; simp

theorem get_mark (cs : Chains) (a : String) (c : Chain) :
    (cs.mark a).get c = if cs.marks c a then (cs.get c).mark a else cs.get c := by
  rw [mark]
  cases hheld : cs.receive.contains a with
  | true =>
      rw [if_pos rfl, get_update]
      cases c with
      | receive => rfl
      | change => rw [marks, hheld]; rfl
  | false =>
      rw [if_neg Bool.false_ne_true, get_update]
      cases c with
      | receive => exact (Keychain.mark_of_not_contains hheld).symm
      | change => rw [marks, hheld]; rfl

theorem marks_mark (cs : Chains) (a : String) : (cs.mark a).marks = cs.marks := by
  funext c b
  rw [Bool.eq_iff_iff, marks_iff, marks_iff,
    show (cs.mark a).receive.addresses = cs.receive.addresses from (grows_mark cs a .receive).1]

/-- Each chain is marked with the addresses that count for it. -/
theorem get_markAll (cs : Chains) (as : List String) (c : Chain) :
    (as.foldl mark cs).get c = (cs.get c).markAll (as.filter (cs.marks c)) := by
  induction as generalizing cs with
  | nil => rfl
  | cons a as ih =>
      rw [List.foldl_cons, ih, marks_mark, get_mark, List.filter_cons]
      split <;> rfl

end Chains
end WatchWallet
