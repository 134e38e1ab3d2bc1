import Mathlib.Tactic.Common
import WatchWallet.Store.BlockStore

/-!
# Store — Blocks

What the blocks of a store are at each height, after blocks are added (`at?_addAll`) and removed, and
which of them is the last (`last?_cases`).  Both kinds of stores hold the same blocks in memory, also
when their files cannot be written.
-/

namespace WatchWallet

namespace Blocks

/-- The block at a height. -/
def at? (b : Blocks) (h : Nat) : Option FilledBlock := b.byHeight[h]?

/-- Several blocks are added, one after the other. -/
abbrev addAll (b : Blocks) (blocks : List FilledBlock) : Blocks := blocks.foldl add b

/-- Blocks that are the same at each height are the same. -/
theorem ext_at? {b b' : Blocks} (h : ∀ k, b.at? k = b'.at? k) : b = b' := by
  obtain ⟨m⟩ := b
  obtain ⟨m'⟩ := b'
  exact congrArg Blocks.mk (Std.ExtTreeMap.ext_getElem? h)

@[simp] theorem at?_empty (h : Nat) : empty.at? h = none := by
  simp [at?, empty]

theorem at?_add (b : Blocks) (block : FilledBlock) (h : Nat) :
    (b.add block).at? h = if h = block.height then some block else b.at? h := by
  simp only [at?, add, Std.ExtTreeMap.getElem?_insert, Nat.compare_eq_eq]
  exact ite_congr (propext eq_comm) (fun _ => rfl) (fun _ => rfl)

theorem at?_below (b : Blocks) (k h : Nat) :
    (b.below k).at? h = if h < k then b.at? h else none := by
  simp only [at?, below, Std.ExtTreeMap.getElem?_filter']
  cases b.byHeight[h]? <;> simp [Option.filter]

/-- Where blocks are added, one of them is found, and elsewhere what was there. -/
theorem at?_addAll (b : Blocks) (blocks : List FilledBlock) (h : Nat) :
    (∃ block ∈ blocks, block.height = h ∧ (b.addAll blocks).at? h = some block) ∨
      (∀ block ∈ blocks, block.height ≠ h) ∧ (b.addAll blocks).at? h = b.at? h := by
  induction blocks generalizing b with
  | nil => exact .inr ⟨fun _ hmem => absurd hmem List.not_mem_nil, rfl⟩
  | cons x xs ih =>
      rcases ih (b.add x) with ⟨block, hmem, hheight, hat⟩ | ⟨hnone, hat⟩
      · exact .inl ⟨block, List.mem_cons_of_mem _ hmem, hheight, hat⟩
      · rw [at?_add] at hat
        by_cases he : h = x.height
        · rw [if_pos he] at hat
          exact .inl ⟨x, List.mem_cons_self, he.symm, hat⟩
        · rw [if_neg he] at hat
          refine .inr ⟨fun block hmem => ?_, hat⟩
          rcases List.mem_cons.1 hmem with rfl | hmem
          · exact fun e => he e.symm
          · exact hnone block hmem

/-- The last block is the one at the greatest height. -/
theorem last?_cases (b : Blocks) : b.last? = none ∧ (∀ h, b.at? h = none) ∨
    ∃ h block, b.last? = some block.header ∧ b.at? h = some block ∧
      ∀ k, b.at? k ≠ none → k ≤ h := by
  have hmem : ∀ {h block}, (h, block) ∈ b.byHeight.toList ↔ b.at? h = some block :=
    Std.ExtTreeMap.mem_toList_iff_getElem?_eq_some
  rw [last?, toList, List.getLast?_map]
  cases hlast : b.byHeight.toList.getLast? with
  | none =>
      refine .inl ⟨rfl, fun h => Option.eq_none_iff_forall_ne_some.2 fun block hat => ?_⟩
      exact List.not_mem_nil (List.getLast?_eq_none_iff.1 hlast ▸ hmem.2 hat)
  | some last =>
      obtain ⟨firsts, hlist⟩ := List.getLast?_eq_some_iff.1 hlast
      have hascending := hlist ▸ b.byHeight.ordered_keys_toList
      refine .inr ⟨last.1, last.2, rfl, hmem.1 (List.mem_of_getLast? hlast), fun k hk => ?_⟩
      obtain ⟨block, hat⟩ := Option.ne_none_iff_exists'.1 hk
      rcases List.mem_append.1 (hlist ▸ hmem.2 hat) with hfirst | hend
      · have hlt := (List.pairwise_append.1 hascending).2.2 _ hfirst _ List.mem_cons_self
        exact Nat.le_of_lt (Nat.compare_eq_lt.1 hlt)
      · exact Nat.le_of_eq (congrArg Prod.fst (List.mem_singleton.1 hend))

theorem mem_toList {b : Blocks} {block : FilledBlock} :
    block ∈ b.toList ↔ ∃ h, b.at? h = some block := by
  simp only [toList, List.mem_map, Prod.exists, exists_eq_right, at?,
    Std.ExtTreeMap.mem_toList_iff_getElem?_eq_some]

/-- When every block stands at its height, the list of blocks is ascending. -/
theorem pairwise_toList {b : Blocks} (hkeys : ∀ {h block}, b.at? h = some block → block.height = h) :
    (b.toList.map FilledBlock.height).Pairwise (· < ·) := by
  rw [toList, List.map_map, List.pairwise_map]
  refine b.byHeight.ordered_keys_toList.imp_of_mem fun {x y} hx hy hlt => ?_
  have hkey : ∀ z ∈ b.byHeight.toList, z.2.height = z.1 := fun z hz =>
    hkeys (Std.ExtTreeMap.mem_toList_iff_getElem?_eq_some.1 hz)
  rw [Function.comp_apply, Function.comp_apply, hkey x hx, hkey y hy]
  exact Nat.compare_eq_lt.1 hlt

end Blocks

namespace BlockStore

variable (s : BlockStore)

@[simp] theorem blocks_add (block : FilledBlock) : (s.add block).blocks = s.blocks.add block := by
  cases s <;> rfl

@[simp] theorem blocks_foldl_add (blocks : List FilledBlock) :
    (blocks.foldl add s).blocks = s.blocks.addAll blocks := by
  induction blocks generalizing s with
  | nil => rfl
  | cons x xs ih => rw [List.foldl_cons, ih, blocks_add]; rfl

/-- A store in memory stays in memory. -/
theorem foldl_add_memory (b : Blocks) (blocks : List FilledBlock) :
    blocks.foldl add (memory b) = memory (b.addAll blocks) := by
  induction blocks generalizing b with
  | nil => rfl
  | cons x xs ih => exact ih (b.add x)

@[simp] theorem blocks_flush (d : Disk) : (s.flush d).2.1.blocks = s.blocks := by
  cases s <;> rfl

@[simp] theorem blocks_removeFrom (h : Nat) (d : Disk) :
    (s.removeFrom h d).2.1.blocks = s.blocks.below h := by
  cases s <;> rfl

end BlockStore
end WatchWallet
