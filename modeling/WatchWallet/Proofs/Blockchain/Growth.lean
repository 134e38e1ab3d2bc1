import WatchWallet.Proofs.Blockchain.Honest
import WatchWallet.Proofs.Window.Discovery

/-!
# Blockchain — Growth

How a chain changes from one pass to the next: it gets no shorter, and what lies deep enough below its
tip stays (`Blockchain.Follows`).  Activity that keeps to the gap from the first address on
(`Blockchain.Regular`) keeps to it from any height on, once every address that was touched before is
known to be used (`Regular.disciplined`).
-/

namespace WatchWallet.Blockchain

variable {c next : Blockchain} {depth : Nat}

/-! ### Final blocks -/

/-- The number of heights at which a block is final: it lies below the tip at least as deep as this. -/
def final (c : Blockchain) (depth : Nat) : Nat := c.blocks.length - depth

/-- A later state of a chain.  It is no shorter, and it has all the final blocks. -/
structure Follows (depth : Nat) (c next : Blockchain) : Prop where
  length_le : c.blocks.length ≤ next.blocks.length
  blocks_eq : ∀ {h}, h < c.final depth → next.blocks[h]? = c.blocks[h]?

namespace Follows

theorem refl (depth : Nat) (c : Blockchain) : Follows depth c c :=
  ⟨Nat.le_refl _, fun _ => rfl⟩

variable (hf : Follows depth c next)
include hf

theorem final_le : c.final depth ≤ next.final depth :=
  Nat.sub_le_sub_right hf.length_le depth

variable {h : Nat} (hh : h < c.final depth)
include hh

theorem header?_eq : next.header? h = c.header? h := by
  rw [header?, header?, hf.blocks_eq hh]

theorem mined_eq : next.mined h = c.mined h := by
  rw [mined, mined, hf.blocks_eq hh]

theorem touching_eq (addresses : List String) :
    next.touching addresses h = c.touching addresses h := by
  rw [touching, touching, hf.mined_eq hh]

theorem touchedAt_iff {a : String} : next.TouchedAt a h ↔ c.TouchedAt a h := by
  rw [TouchedAt, TouchedAt, hf.mined_eq hh]

end Follows

/-- A chain that only grows keeps its first block. -/
theorem Follows.startsAt {hash : String} (hf : Follows 0 c next)
    (h : c.StartsAt (some hash) 0) : next.StartsAt (some hash) 0 := by
  obtain ⟨header, hheader, hhash⟩ := h
  obtain ⟨b, hb, -⟩ := Option.map_eq_some_iff.1 hheader
  have hpos : 0 < c.final 0 := (List.getElem?_eq_some_iff.1 hb).1
  exact ⟨header, (hf.header?_eq hpos).trans hheader, hhash⟩

/-- The tip is the last height. -/
theorem height_of_tip? {block : Block} (h : c.tip? = some block) :
    block.height.toNat + 1 = c.blocks.length := by
  obtain ⟨b, hb, rfl⟩ := Option.map_eq_some_iff.1 h
  rw [List.getLast?_eq_getElem?] at hb
  have hlt := (List.getElem?_eq_some_iff.1 hb).1
  have hheight : b.height = c.blocks.length - 1 := height_eq hb
  show b.height + 1 = c.blocks.length
  omega

/-! ### Activity -/

/-- Activity on a chain of addresses keeps to the gap: what lies behind the first gap is touched only
after one of the addresses in the gap before it, and nothing is spent from an address before it is
paid. -/
structure Regular (c : Blockchain) (addresses : List String) (gap : Nat) : Prop where
  reached : ∀ {i a x}, addresses[i]? = some a → gap ≤ i → c.TouchedAt a x →
    ∃ k b y, i - gap ≤ k ∧ k < i ∧ addresses[k]? = some b ∧ y ≤ x ∧ c.TouchedAt b y
  paid : ∀ {a x}, a ∈ addresses → c.TouchedAt a x →
    ∃ y tx, y ≤ x ∧ tx ∈ c.mined y ∧ a ∈ tx.paidAddresses

/-- With regular activity, a search that knows what was used before it can find everything. -/
theorem Regular.disciplined {s : Search} {ch : Chain} {hi : Nat}
    (h : s.blockchain.Regular (s.addresses ch) s.gap)
    (hknown : ∀ {i a x}, (s.addresses ch)[i]? = some a → x < s.lo → s.blockchain.TouchedAt a x →
      i < s.used ch) : s.Disciplined ch hi := by
  refine ⟨fun {i a x} ha hnew hbefore htouched => ?_, fun {i a x} ha hi _ htouched => ?_⟩
  · exact absurd (hknown ha hbefore htouched) (Nat.not_lt.2 hnew)
  · exact h.reached ha (Nat.le_trans (Nat.le_add_left _ _) hi) htouched

end WatchWallet.Blockchain
