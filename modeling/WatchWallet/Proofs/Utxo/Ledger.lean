import Mathlib.Algebra.BigOperators.Group.Finset.Basic
import Mathlib.Algebra.GroupWithZero.Nat
import Mathlib.Data.List.Induction
import Mathlib.Tactic.Common
import WatchWallet.Utxo.Basic

/-!
# Utxo — Ledger

What a ledger holds is said of the transactions alone: an own output is available unless an input consumes
it (`getElem?_available`), and a key is spent when it is consumed and no own output is there
(`mem_spent`).  Both depend on which transactions there are, not on their order or their number
(`ofTransactions_congr`), and the balance is the worth of the available outputs as far as an amount reaches
(`val_balance`).
-/

namespace WatchWallet

/-- However often a sum stops on the way, it comes to the whole sum or to the largest amount. -/
theorem Amount.val_foldl_add (total : Amount) (as : List Amount) :
    (as.foldl (· + ·) total).val = min (total.val + (as.map Amount.val).sum) (Amount.size - 1) := by
  induction as generalizing total with
  | nil =>
      have hlt := total.lt
      simp only [List.foldl_nil, List.map_nil, List.sum_nil]
      omega
  | cons a as ih =>
      rw [List.foldl_cons, ih, Amount.val_add, List.map_cons, List.sum_cons]
      omega

namespace Utxo

/-! ### What transactions say -/

/-- The transactions pay the value to an own address at the key. -/
def Pays (isOwn : String → Bool) (txs : List Transaction) (k : Key) (v : Value) : Prop :=
  ∃ tx ∈ txs, ∃ o ∈ tx.outputs, tx.hash = k.hash ∧ o.index.toNat = k.index.toNat ∧
    o.address = some v.address ∧ isOwn v.address = true ∧ o.value = v.amount

/-- An input of the transactions consumes the output at the key. -/
def Consumes (txs : List Transaction) (k : Key) : Prop :=
  ∃ tx ∈ txs, ∃ i ∈ tx.inputs, i.previousHash = some k.hash ∧ i.previousIndex = some k.index

instance (txs : List Transaction) (k : Key) : Decidable (Consumes txs k) :=
  inferInstanceAs (Decidable (∃ tx ∈ txs, ∃ i ∈ tx.inputs, _ ∧ _))

/-- Outputs at the same position of transactions with the same hash pay the same to the same address. -/
def Consistent (txs : List Transaction) : Prop :=
  ∀ tx ∈ txs, ∀ tx' ∈ txs, tx.hash = tx'.hash → ∀ o ∈ tx.outputs, ∀ o' ∈ tx'.outputs,
    o.index = o'.index → o.value = o'.value ∧ o.address = o'.address

instance (txs : List Transaction) : Decidable (Consistent txs) :=
  inferInstanceAs (Decidable (∀ tx ∈ txs, ∀ tx' ∈ txs, _ → ∀ o ∈ tx.outputs, ∀ o' ∈ tx'.outputs, _ → _))

variable {isOwn : String → Bool} {txs txs' : List Transaction} {k : Key} {v w : Value}

/-- In consistent transactions there is one value at a key. -/
theorem Consistent.eq_of_pays (h : Consistent txs) (hv : Pays isOwn txs k v) (hw : Pays isOwn txs k w) :
    v = w := by
  obtain ⟨tx, htx, o, ho, hhash, hindex, haddress, -, hvalue⟩ := hv
  obtain ⟨tx', htx', o', ho', hhash', hindex', haddress', -, hvalue'⟩ := hw
  have hsame : o.index = o'.index := UInt64.toNat_inj.1 (hindex.trans hindex'.symm)
  obtain ⟨hvalues, haddresses⟩ := h tx htx tx' htx' (hhash.trans hhash'.symm) o ho o' ho' hsame
  cases v
  cases w
  cases hvalue.symm.trans (hvalues.trans hvalue')
  cases haddress.symm.trans (haddresses.trans haddress')
  rfl

/-! ### Gathering -/

namespace Ledger

/-- An own output pays an own address at a position of 32 bits. -/
theorem ownOutput?_eq_some {hash : String} {o : Output} :
    ownOutput? isOwn hash o = some (k, v) ↔ hash = k.hash ∧ o.index.toNat = k.index.toNat ∧
      o.address = some v.address ∧ isOwn v.address = true ∧ o.value = v.amount := by
  obtain ⟨khash, kindex⟩ := k
  obtain ⟨amount, address⟩ := v
  have hmod : o.index.toUInt32.toNat = o.index.toNat % UInt32.size := UInt64.toNat_toUInt32 _
  unfold ownOutput?
  cases haddress : o.address with
  | none => simp
  | some a =>
      show (if _ then some (_, _) else none) = _ ↔ _
      constructor
      · intro h
        split at h
        · rename_i hown
          cases h
          exact ⟨rfl, by rw [hmod, Nat.mod_eq_of_lt hown.2], rfl, hown.1, rfl⟩
        · cases h
      · rintro ⟨rfl, hindex, heq, hown, rfl⟩
        dsimp only at hindex hown
        obtain rfl := Option.some.inj heq
        have hlt : o.index.toNat < UInt32.size := hindex ▸ kindex.toNat_lt
        rw [if_pos ⟨hown, hlt⟩, UInt32.toNat_inj.1 (hmod.trans ((Nat.mod_eq_of_lt hlt).trans hindex))]

/-- The own outputs of the transactions in order, with their keys. -/
def entries (isOwn : String → Bool) (txs : List Transaction) : List (Key × Value) :=
  txs.flatMap fun tx => tx.outputs.filterMap (ownOutput? isOwn tx.hash)

theorem mem_entries : (k, v) ∈ entries isOwn txs ↔ Pays isOwn txs k v := by
  simp only [entries, List.mem_flatMap, List.mem_filterMap, ownOutput?_eq_some]
  rfl

theorem received_eq : received isOwn txs =
    (entries isOwn txs).foldl (fun entries (key, value) => entries.insert key value) ∅ :=
  (List.foldl_flatMap ..).symm

/-- What a map holds at a key after insertions is one of the insertions there. -/
theorem getElem?_foldl_insert (es : List (Key × Value)) (k : Key) :
    (∃ v, (es.foldl (fun entries (key, value) => entries.insert key value) (∅ : KeyMap))[k]? = some v ∧
      (k, v) ∈ es) ∨
    (es.foldl (fun entries (key, value) => entries.insert key value) (∅ : KeyMap))[k]? = none ∧
      ∀ v, (k, v) ∉ es := by
  induction es using List.reverseRecOn with
  | nil => exact .inr ⟨Std.ExtTreeMap.getElem?_empty, fun v => List.not_mem_nil⟩
  | append_singleton es e ih =>
      obtain ⟨key, value⟩ := e
      rw [List.foldl_concat, Std.ExtTreeMap.getElem?_insert]
      by_cases hkey : key = k
      · subst hkey
        exact .inl ⟨value, if_pos Std.ReflCmp.compare_self, by simp⟩
      · rw [if_neg (mt Std.LawfulEqCmp.eq_of_compare hkey)]
        rcases ih with ⟨v, hv, hmem⟩ | ⟨hnone, hnot⟩
        · exact .inl ⟨v, hv, List.mem_append_left _ hmem⟩
        · refine .inr ⟨hnone, fun v hmem => ?_⟩
          rcases List.mem_append.1 hmem with hmem | hmem
          · exact hnot v hmem
          · exact hkey (Prod.mk.inj (List.mem_singleton.1 hmem)).1.symm

/-- A key is received when an own output is there. -/
theorem mem_received : k ∈ received isOwn txs ↔ ∃ v, Pays isOwn txs k v := by
  rw [Std.ExtTreeMap.mem_iff_isSome_getElem?, received_eq]
  rcases getElem?_foldl_insert (entries isOwn txs) k with ⟨v, hv, hmem⟩ | ⟨hnone, hnot⟩
  · rw [hv]
    exact ⟨fun _ => ⟨v, mem_entries.1 hmem⟩, fun _ => rfl⟩
  · rw [hnone]
    exact ⟨fun h => absurd h Bool.false_ne_true, fun ⟨v, hv⟩ => absurd (mem_entries.2 hv) (hnot v)⟩

theorem getElem?_received (h : Consistent txs) :
    (received isOwn txs)[k]? = some v ↔ Pays isOwn txs k v := by
  rw [received_eq]
  rcases getElem?_foldl_insert (entries isOwn txs) k with ⟨w, hw, hmem⟩ | ⟨hnone, hnot⟩
  · have hpays := mem_entries.1 hmem
    rw [hw, Option.some.injEq]
    exact ⟨fun heq => heq ▸ hpays, h.eq_of_pays hpays⟩
  · rw [hnone]
    exact ⟨nofun, fun hv => absurd (mem_entries.2 hv) (hnot v)⟩

theorem mem_consumed : k ∈ consumed txs ↔ Consumes txs k := by
  have hkeys : ∀ (ks : List Key) (s : KeySet), k ∈ ks.foldl (·.insert ·) s ↔ k ∈ ks ∨ k ∈ s := by
    intro ks
    induction ks with
    | nil => simp
    | cons key ks ih =>
        intro s
        rw [List.foldl_cons, ih, Std.ExtTreeSet.mem_insert, Std.LawfulEqCmp.compare_eq_iff_eq,
          List.mem_cons, eq_comm, or_assoc, or_left_comm]
  have hkey : ∀ i : Input, consumedKey? i = some k ↔
      i.previousHash = some k.hash ∧ i.previousIndex = some k.index := by
    cases k
    rintro ⟨-, -, _ | hash, _ | index, -, -, -, -⟩ <;> simp [consumedKey?]
  have hfold : consumed txs =
      (txs.flatMap fun tx => tx.inputs.filterMap consumedKey?).foldl (·.insert ·) ∅ :=
    (List.foldl_flatMap ..).symm
  rw [hfold, hkeys]
  simp only [List.mem_flatMap, List.mem_filterMap, hkey, Std.ExtTreeSet.not_mem_empty, or_false]
  rfl

/-! ### Ledgers -/

/-- An own output is available unless an input consumes it. -/
theorem getElem?_available (h : Consistent txs) :
    (ofTransactions isOwn txs).available[k]? = some v ↔ Pays isOwn txs k v ∧ ¬Consumes txs k := by
  dsimp only [ofTransactions]
  rw [Std.ExtTreeMap.getElem?_filter', Option.filter_eq_some_iff, getElem?_received h,
    Bool.not_eq_true', ← Bool.not_eq_true, Std.ExtTreeSet.contains_iff_mem, mem_consumed]

/-- A key is spent when an input consumes it and no own output is there. -/
theorem mem_spent : k ∈ (ofTransactions isOwn txs).spent ↔
    Consumes txs k ∧ ∀ v, ¬Pays isOwn txs k v := by
  dsimp only [ofTransactions]
  rw [Std.ExtTreeSet.mem_filter]
  simp only [Std.ExtTreeSet.get_eq, Bool.not_eq_true', ← Bool.not_eq_true,
    Std.ExtTreeMap.contains_iff_mem, mem_received, mem_consumed, exists_prop, not_exists]

/-- The same transactions, in another order or some of them repeated, make the same ledger. -/
theorem ofTransactions_congr (h : Consistent txs) (hsame : ∀ tx, tx ∈ txs' ↔ tx ∈ txs) :
    ofTransactions isOwn txs' = ofTransactions isOwn txs := by
  have hpays : ∀ {k v}, Pays isOwn txs' k v ↔ Pays isOwn txs k v := by
    intro k v
    simp only [Pays, hsame]
  have hconsumes : ∀ {k}, Consumes txs' k ↔ Consumes txs k := by
    intro k
    simp only [Consumes, hsame]
  have h' : Consistent txs' := by
    simpa only [Consistent, hsame] using h
  have havailable : (ofTransactions isOwn txs').available = (ofTransactions isOwn txs).available := by
    refine Std.ExtTreeMap.ext_getElem? fun k => Option.ext fun v => ?_
    rw [getElem?_available h', getElem?_available h, hpays, hconsumes]
  have hspent : (ofTransactions isOwn txs').spent = (ofTransactions isOwn txs).spent := by
    refine Std.ExtTreeSet.ext_mem fun k => ?_
    rw [mem_spent, mem_spent, hconsumes]
    simp only [hpays]
  calc ofTransactions isOwn txs'
      = ⟨(ofTransactions isOwn txs').available, (ofTransactions isOwn txs').spent⟩ := rfl
    _ = ofTransactions isOwn txs := by rw [havailable, hspent]

/-! ### Balances -/

/-- The own outputs of the transactions, each of them once. -/
def owned (isOwn : String → Bool) (txs : List Transaction) : Finset (Key × Value) :=
  (entries isOwn txs).toFinset

theorem mem_owned : (k, v) ∈ owned isOwn txs ↔ Pays isOwn txs k v :=
  List.mem_toFinset.trans mem_entries

/-- What several outputs are worth together. -/
def worth (outputs : Finset (Key × Value)) : Nat :=
  ∑ e ∈ outputs, e.2.amount.val

/-- The balance is what the available outputs are worth, or the largest amount. -/
theorem val_balance (h : Consistent txs) : (ofTransactions isOwn txs).balance.val =
    min (worth {e ∈ owned isOwn txs | ¬Consumes txs e.1}) (Amount.size - 1) := by
  let available := (ofTransactions isOwn txs).available
  have hnodup : available.toList.Nodup := by
    refine Std.ExtTreeMap.distinct_keys_toList.imp ?_
    rintro e _ hne rfl
    exact hne Std.ReflCmp.compare_self
  have hset : available.toList.toFinset = {e ∈ owned isOwn txs | ¬Consumes txs e.1} := by
    ext ⟨k, v⟩
    rw [List.mem_toFinset, Std.ExtTreeMap.mem_toList_iff_getElem?_eq_some, getElem?_available h,
      Finset.mem_filter, mem_owned]
  have hfold : (ofTransactions isOwn txs).balance =
      (available.toList.map (·.2.amount)).foldl (· + ·) Amount.zero := by
    rw [balance, Std.ExtTreeMap.foldl_eq_foldl_toList, List.foldl_map]
  rw [hfold, Amount.val_foldl_add, List.map_map, worth, ← hset, List.sum_toFinset _ hnodup]
  show min (0 + _) _ = _
  rw [Nat.zero_add]
  rfl

/-- What is available and what was consumed of the own outputs are worth as much as all of them. -/
theorem worth_split (isOwn : String → Bool) (txs : List Transaction) :
    worth {e ∈ owned isOwn txs | ¬Consumes txs e.1} + worth {e ∈ owned isOwn txs | Consumes txs e.1} =
      worth (owned isOwn txs) := by
  rw [Nat.add_comm]
  exact Finset.sum_filter_add_sum_filter_not ..

/-- **A ledger is a function of the set of its transactions.**  In consistent transactions neither order
nor repetition makes a difference; the available outputs are the own outputs that no input consumes, each
with its amount and its address; no key is both available and spent; and the balance is the exact sum of
the available amounts up to the largest amount, so that with what was consumed of the own outputs it makes
up all of them. -/
theorem ledger_of_transactions (isOwn : String → Bool) (h : Consistent txs) :
    let ledger := ofTransactions isOwn txs
    (∀ {txs'}, (∀ tx, tx ∈ txs' ↔ tx ∈ txs) → ofTransactions isOwn txs' = ledger) ∧
    (∀ k v, ledger.available[k]? = some v ↔ Pays isOwn txs k v ∧ ¬Consumes txs k) ∧
    (∀ k, ¬(k ∈ ledger.available ∧ k ∈ ledger.spent)) ∧
    ledger.balance.val =
      min (worth {e ∈ owned isOwn txs | ¬Consumes txs e.1}) (Amount.size - 1) ∧
    (worth {e ∈ owned isOwn txs | ¬Consumes txs e.1} < Amount.size →
      ledger.balance.val + worth {e ∈ owned isOwn txs | Consumes txs e.1} =
        worth (owned isOwn txs)) := by
  intro ledger
  refine ⟨ofTransactions_congr h, fun k v => getElem?_available h, ?_, val_balance h, fun hfits => ?_⟩
  · rintro k ⟨havailable, hspent⟩
    obtain ⟨v, hv⟩ := Option.isSome_iff_exists.1 (Std.ExtTreeMap.mem_iff_isSome_getElem?.1 havailable)
    exact (mem_spent.1 hspent).2 v ((getElem?_available h).1 hv).1
  · rw [← worth_split isOwn txs, val_balance h, Nat.min_eq_left (Nat.le_sub_one_of_lt hfits)]

/-- A payment that is listed twice, both times after the transaction that spends it: the change is
available and makes up the balance, with the payment it is all that was received. -/
theorem ledger_of_transactions_spentFirst :
    let isOwn : String → Bool := (· == "mine")
    let payment : Transaction :=
      { hash := "t1", outputs := [{ value := .ofUInt64 1000, address := some "mine" }] }
    let spending : Transaction :=
      { hash := "t2"
        inputs := [{ previousHash := some "t1", previousIndex := some 0 }]
        outputs := [{ value := .ofUInt64 700, address := some "theirs" },
          { index := 1, value := .ofUInt64 250, address := some "mine" }] }
    let txs := [spending, payment, payment]
    Consistent txs ∧ ofTransactions isOwn [payment, spending] = ofTransactions isOwn txs ∧
      (ofTransactions isOwn txs).available[(⟨"t2", 1⟩ : Key)]? = some ⟨.ofUInt64 250, "mine"⟩ ∧
      (ofTransactions isOwn txs).balance.val = 250 ∧ worth (owned isOwn txs) = 1250 := by
  intro isOwn payment spending txs
  have hconsistent : Consistent txs := by decide
  have hunspent : worth {e ∈ owned isOwn txs | ¬Consumes txs e.1} = 250 := by decide
  have howned : worth (owned isOwn txs) = 1250 := by decide
  obtain ⟨hsame, havailable, -, hbalance, -⟩ := ledger_of_transactions isOwn hconsistent
  refine ⟨hconsistent, hsame fun tx => ?_, (havailable _ _).2 ⟨?_, by decide⟩, ?_, howned⟩
  · simp only [txs, List.mem_cons, List.not_mem_nil, or_false, or_self]
    exact or_comm
  · exact mem_owned.1 (by decide)
  · rw [hbalance, hunspent]
    decide

end Ledger
end Utxo
end WatchWallet
