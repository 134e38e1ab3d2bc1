import WatchWallet.Proofs.Utxo.Ledger

/-!
# Utxo — Origin

An output that was spent and is not an own one may still be known: the transaction that holds it can be among
those of the account, where it pays somebody else or no address at all.  The spent keys of a ledger are those
without an own output (`Ledger.mem_spent`), so they are the ones of unknown origin exactly as far as what the
account's transactions consume of each other is its own (`Ledger.origin_of_spent`).
-/

namespace WatchWallet.Utxo

/-- The transactions hold the output at the key, whoever is paid by it. -/
def Funds (txs : List Transaction) (k : Key) : Prop :=
  ∃ tx ∈ txs, ∃ o ∈ tx.outputs, tx.hash = k.hash ∧ o.index.toNat = k.index.toNat

instance (txs : List Transaction) (k : Key) : Decidable (Funds txs k) :=
  inferInstanceAs (Decidable (∃ tx ∈ txs, ∃ o ∈ tx.outputs, _ ∧ _))

variable {isOwn : String → Bool} {txs : List Transaction} {k : Key}

theorem Pays.funds {v : Value} (h : Pays isOwn txs k v) : Funds txs k := by
  obtain ⟨tx, htx, o, ho, hhash, hindex, -⟩ := h
  exact ⟨tx, htx, o, ho, hhash, hindex⟩

namespace Ledger

/-- No spend of unknown origin is left out. -/
theorem mem_spent_of_not_funds (hconsumes : Consumes txs k) (hunknown : ¬Funds txs k) :
    k ∈ (ofTransactions isOwn txs).spent :=
  mem_spent.2 ⟨hconsumes, fun _ hpays => hunknown hpays.funds⟩

/-- **What is spent has no own output**: it is consumed, and no listed transaction pays an own address there.
That is to say that its origin is unknown unless an output that was seen there pays somebody else; and none of
unknown origin is missing. -/
theorem origin_of_spent (isOwn : String → Bool) (txs : List Transaction) (k : Key) :
    (k ∈ (ofTransactions isOwn txs).spent ↔ Consumes txs k ∧ ∀ v, ¬Pays isOwn txs k v) ∧
    (Consumes txs k ∧ ¬Funds txs k → k ∈ (ofTransactions isOwn txs).spent) ∧
    ((k ∈ (ofTransactions isOwn txs).spent ↔ Consumes txs k ∧ ¬Funds txs k) ↔
      (Consumes txs k → Funds txs k → ∃ v, Pays isOwn txs k v)) := by
  refine ⟨mem_spent, fun h => mem_spent_of_not_funds h.1 h.2, fun horigin hconsumes hfunds => ?_,
    fun hown => ⟨fun hspent => ?_, fun h => mem_spent_of_not_funds h.1 h.2⟩⟩
  · by_contra hforeign
    have hspent : k ∈ (ofTransactions isOwn txs).spent :=
      mem_spent.2 ⟨hconsumes, fun v hpays => hforeign ⟨v, hpays⟩⟩
    exact (horigin.1 hspent).2 hfunds
  · obtain ⟨hconsumes, hnone⟩ := mem_spent.1 hspent
    refine ⟨hconsumes, fun hfunds => ?_⟩
    obtain ⟨v, hpays⟩ := hown hconsumes hfunds
    exact hnone v hpays

/-- An output to somebody else comes back: it is spent in favour of the account, and the transaction that
holds it is listed as well.  A spend from elsewhere has no origin. -/
theorem origin_of_spent_comesBack :
    let isOwn : String → Bool := (· == "mine")
    let payment : Transaction :=
      { hash := "t1"
        inputs := [{ previousHash := some "t0", previousIndex := some 3 }]
        outputs := [{ value := .ofUInt64 700, address := some "theirs" },
          { index := 1, value := .ofUInt64 250, address := some "mine" }] }
    let back : Transaction :=
      { hash := "t2"
        inputs := [{ previousHash := some "t1", previousIndex := some 0 }]
        outputs := [{ value := .ofUInt64 600, address := some "mine" }] }
    let txs := [payment, back]
    ⟨"t0", 3⟩ ∈ (ofTransactions isOwn txs).spent ∧
      ⟨"t1", 0⟩ ∈ (ofTransactions isOwn txs).spent ∧ Funds txs ⟨"t1", 0⟩ ∧
      ¬(⟨"t1", 0⟩ ∈ (ofTransactions isOwn txs).spent ↔ Consumes txs ⟨"t1", 0⟩ ∧ ¬Funds txs ⟨"t1", 0⟩) := by
  intro isOwn payment back txs
  have hforeign : ∀ v, ¬Pays isOwn txs ⟨"t1", 0⟩ v := by
    intro v hpays
    have howned : ∀ e ∈ owned isOwn txs, e.1 ≠ ⟨"t1", 0⟩ := by decide
    exact howned _ (mem_owned.2 hpays) rfl
  have hfunds : Funds txs ⟨"t1", 0⟩ := by decide
  have hconsumes : Consumes txs ⟨"t1", 0⟩ := by decide
  obtain ⟨hspent, -, horigin⟩ := origin_of_spent isOwn txs ⟨"t1", 0⟩
  refine ⟨(origin_of_spent isOwn txs ⟨"t0", 3⟩).2.1 (by decide), hspent.2 ⟨hconsumes, hforeign⟩, hfunds,
    fun hclaim => ?_⟩
  obtain ⟨v, hpays⟩ := horigin.1 hclaim hconsumes hfunds
  exact hforeign v hpays

end Ledger
end WatchWallet.Utxo
