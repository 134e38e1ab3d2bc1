import Mathlib.Data.List.Nodup
import Mathlib.Tactic.Common
import WatchWallet.Explorer.Basic

/-!
# Blockchain — Basic

A chain of blocks with every transaction in them.  Heights count from 0, no two blocks share a hash,
and a transaction names the block that holds it, so its height is the height it is mined at
(`height?_of_mem_mined`).
-/

namespace WatchWallet

/-- A chain of blocks, the block at the height 0 first. -/
structure Blockchain where
  blocks : List FilledBlock
  heights : blocks.map FilledBlock.height = List.range blocks.length
  nodup_hashes : (blocks.map (·.header.hash)).Nodup
  block_eq : ∀ b ∈ blocks, ∀ tx ∈ b.transactions, tx.block = some b.header
  nodup_transactions : ∀ b ∈ blocks, (b.transactions.map (·.hash)).Nodup

theorem Transaction.touches_iff {addresses : List String} {tx : Transaction} :
    tx.touches addresses = true ↔ ∃ a ∈ addresses, tx.touches [a] = true := by
  simp only [touches, List.any_eq_true, List.contains_iff_mem, List.mem_singleton]
  constructor
  · rintro ⟨a, hmem, ha⟩
    exact ⟨a, ha, a, hmem, rfl⟩
  · rintro ⟨a, ha, b, hb, rfl⟩
    exact ⟨b, hb, ha⟩

/-- A transaction touches what it pays. -/
theorem Transaction.touches_of_mem_paidAddresses {a : String} {tx : Transaction}
    (h : a ∈ tx.paidAddresses) : tx.touches [a] = true := by
  simp only [touches, List.any_eq_true, List.contains_iff_mem, List.mem_singleton]
  exact ⟨a, List.mem_append_left _ h, rfl⟩

namespace Blockchain

variable (c : Blockchain)

/-- The header of the block at a height. -/
def header? (h : Nat) : Option Block := c.blocks[h]?.map (·.header)

/-- The transactions in the block at a height. -/
def mined (h : Nat) : List Transaction := (c.blocks[h]?.map (·.transactions)).getD []

/-- The transactions from a height on. -/
def onwards (h : Nat) : List Transaction := (c.blocks.drop h).flatMap (·.transactions)

/-- The transactions at a height that touch one of the addresses. -/
def touching (addresses : List String) (h : Nat) : List Transaction :=
  (c.mined h).filter (·.touches addresses)

/-- Some transaction at the height touches the address. -/
def TouchedAt (a : String) (h : Nat) : Prop := ∃ tx ∈ c.mined h, tx.touches [a] = true

/-- A scan of the chain starts at this height: at the block with a hash, or at the first one. -/
def StartsAt : Option String → Nat → Prop
  | none, h => h = 0
  | some hash, h => ∃ header, c.header? h = some header ∧ header.hash = hash

variable {c}

/-! ### The blocks -/

theorem height_eq {h : Nat} {b : FilledBlock} (hb : c.blocks[h]? = some b) : b.height = h := by
  have hmap : (c.blocks.map FilledBlock.height)[h]? = some b.height := by
    rw [List.getElem?_map, hb, Option.map_some]
  rw [c.heights, List.getElem?_range (List.getElem?_eq_some_iff.1 hb).1] at hmap
  exact (Option.some.inj hmap).symm

theorem height_of_header? {h : Nat} {header : Block} (hh : c.header? h = some header) :
    header.height.toNat = h := by
  obtain ⟨b, hb, rfl⟩ := Option.map_eq_some_iff.1 hh
  exact height_eq hb

/-! ### The transactions of a height -/

theorem mem_mined {h : Nat} {tx : Transaction} :
    tx ∈ c.mined h ↔ ∃ b, c.blocks[h]? = some b ∧ tx ∈ b.transactions := by
  unfold mined
  cases c.blocks[h]? <;> simp

theorem mem_onwards {h : Nat} {tx : Transaction} :
    tx ∈ c.onwards h ↔ ∃ k, h ≤ k ∧ tx ∈ c.mined k := by
  simp only [onwards, List.mem_flatMap, mem_mined]
  constructor
  · rintro ⟨b, hb, htx⟩
    obtain ⟨i, hi⟩ := List.mem_iff_getElem?.1 hb
    rw [List.getElem?_drop] at hi
    exact ⟨h + i, Nat.le_add_right h i, b, hi, htx⟩
  · rintro ⟨k, hle, b, hb, htx⟩
    refine ⟨b, List.mem_iff_getElem?.2 ⟨k - h, ?_⟩, htx⟩
    rw [List.getElem?_drop, Nat.add_sub_cancel' hle]
    exact hb

/-- A transaction names the block that holds it. -/
theorem block_of_mem_mined {h : Nat} {tx : Transaction} (htx : tx ∈ c.mined h) :
    ∃ header, c.header? h = some header ∧ tx.block = some header := by
  obtain ⟨b, hb, hmem⟩ := mem_mined.1 htx
  exact ⟨b.header, by rw [header?, hb, Option.map_some],
    c.block_eq b (List.mem_of_getElem? hb) tx hmem⟩

theorem height?_of_mem_mined {h : Nat} {tx : Transaction} (htx : tx ∈ c.mined h) :
    tx.height? = some h := by
  obtain ⟨header, hheader, hblock⟩ := block_of_mem_mined htx
  rw [Transaction.height?, hblock, Option.map_some, height_of_header? hheader]

theorem header?_of_block {h : Nat} {tx : Transaction} {header : Block} (htx : tx ∈ c.mined h)
    (hblock : tx.block = some header) : c.header? h = some header := by
  obtain ⟨header', hheader, hblock'⟩ := block_of_mem_mined htx
  rw [hheader, ← hblock', hblock]

theorem nodup_hashes_mined (c : Blockchain) (h : Nat) : ((c.mined h).map (·.hash)).Nodup := by
  unfold mined
  cases hb : c.blocks[h]? with
  | none => simp
  | some b => exact c.nodup_transactions b (List.mem_of_getElem? hb)

theorem nodup_mined (c : Blockchain) (h : Nat) : (c.mined h).Nodup :=
  (c.nodup_hashes_mined h).of_map _

/-- In a block the hash tells the transaction. -/
theorem eq_of_hash_eq {h : Nat} {tx tx' : Transaction} (htx : tx ∈ c.mined h)
    (htx' : tx' ∈ c.mined h) (he : tx.hash = tx'.hash) : tx = tx' :=
  List.inj_on_of_nodup_map (c.nodup_hashes_mined h) htx htx' he

theorem mem_touching {addresses : List String} {h : Nat} {tx : Transaction} :
    tx ∈ c.touching addresses h ↔ tx ∈ c.mined h ∧ tx.touches addresses = true :=
  List.mem_filter

theorem nodup_touching (c : Blockchain) (addresses : List String) (h : Nat) :
    (c.touching addresses h).Nodup :=
  (c.nodup_mined h).filter _

/-- More addresses are touched by no fewer transactions. -/
theorem length_touching_le {addresses addresses' : List String} (hsub : addresses ⊆ addresses')
    (h : Nat) : (c.touching addresses h).length ≤ (c.touching addresses' h).length := by
  refine (List.monotone_filter_right _ fun tx htouches => ?_).length_le
  obtain ⟨a, ha, htouch⟩ := Transaction.touches_iff.1 htouches
  exact Transaction.touches_iff.2 ⟨a, hsub ha, htouch⟩

/-- No transaction comes twice. -/
theorem nodup_onwards (c : Blockchain) (h : Nat) : (c.onwards h).Nodup := by
  have hblocks : c.blocks.Pairwise (fun b b' => b.header.hash ≠ b'.header.hash) :=
    List.pairwise_map.1 c.nodup_hashes
  refine List.nodup_flatMap.2 ⟨fun b hb => ?_, ?_⟩
  · exact (c.nodup_transactions b (List.mem_of_mem_drop hb)).of_map _
  · refine (hblocks.sublist (List.drop_sublist h _)).imp_of_mem fun hb hb' hne tx htx htx' => hne ?_
    have hblock := c.block_eq _ (List.mem_of_mem_drop hb) tx htx
    rw [c.block_eq _ (List.mem_of_mem_drop hb') tx htx'] at hblock
    rw [Option.some.inj hblock]

/-! ### Where a scan starts -/

theorem StartsAt.unique {start : Option String} {h k : Nat} (hh : c.StartsAt start h)
    (hk : c.StartsAt start k) : h = k := by
  cases start with
  | none => exact Eq.trans hh hk.symm
  | some hash =>
      obtain ⟨header, hheader, hhash⟩ := hh
      obtain ⟨header', hheader', rfl⟩ := hk
      obtain ⟨b, hb, rfl⟩ := Option.map_eq_some_iff.1 hheader
      obtain ⟨b', hb', rfl⟩ := Option.map_eq_some_iff.1 hheader'
      have hk : h < (c.blocks.map (·.header.hash)).length := by
        rw [List.length_map]
        exact (List.getElem?_eq_some_iff.1 hb).1
      refine (List.getElem?_inj hk c.nodup_hashes).1 ?_
      rw [List.getElem?_map, List.getElem?_map, hb, hb', Option.map_some, Option.map_some, hhash]

theorem startsAt_hash {h : Nat} {header : Block} (hh : c.header? h = some header) :
    c.StartsAt (some header.hash) h :=
  ⟨header, hh, rfl⟩

end Blockchain
end WatchWallet
