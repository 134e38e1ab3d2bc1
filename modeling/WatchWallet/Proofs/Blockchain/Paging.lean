import WatchWallet.Proofs.Blockchain.Basic
import WatchWallet.Proofs.Window.Run

/-!
# Blockchain — Paging

The answers of an honest explorer: what touches the addresses from a height on, in the order of the
heights, cut after a page (`Blockchain.Answers`).  What a task concludes from such an answer is true
of the chain: when it finds nothing, nothing matches (`Blockchain.Answers.quiet`); otherwise it knows
where the first match is and through which height no match is missing (`Blockchain.Answers.active`).
-/

namespace WatchWallet

/-! ### The ends of an answer -/

/-- Picking from a list, two at a time, ends with an element that is related to all. -/
theorem foldl_pick {α : Type} {R : α → α → Prop} (hrefl : ∀ x, R x x)
    (htrans : ∀ {x y z}, R x y → R y z → R x z) {pick : α → α → α}
    (hpick : ∀ x y, pick x y = x ∨ pick x y = y) (hR : ∀ x y, R (pick x y) x ∧ R (pick x y) y)
    (xs : List α) (x : α) :
    xs.foldl pick x ∈ x :: xs ∧ ∀ y ∈ x :: xs, R (xs.foldl pick x) y := by
  induction xs generalizing x with
  | nil => exact ⟨List.mem_cons_self, fun y hy => List.mem_singleton.1 hy ▸ hrefl _⟩
  | cons z zs ih =>
      obtain ⟨hmem, hall⟩ := ih (pick x z)
      have hfirst := hall _ List.mem_cons_self
      refine ⟨?_, fun y hy => ?_⟩
      · rw [List.foldl_cons]
        rcases List.mem_cons.1 hmem with he | hmem
        · rcases hpick x z with hx | hz
          · rw [he, hx]; exact List.mem_cons_self
          · rw [he, hz]; exact List.mem_cons_of_mem _ List.mem_cons_self
        · exact List.mem_cons_of_mem _ (List.mem_cons_of_mem _ hmem)
      · rw [List.foldl_cons]
        rcases List.mem_cons.1 hy with rfl | hy
        · exact htrans hfirst (hR y z).1
        · rcases List.mem_cons.1 hy with rfl | hy
          · exact htrans hfirst (hR x y).2
          · exact hall y (List.mem_cons_of_mem _ hy)

namespace Answer

variable {a : Answer} {b : Block}

theorem mem_blocks : b ∈ a.blocks ↔ ∃ tx ∈ a.transactions, tx.block = some b :=
  List.mem_filterMap

theorem lowest?_mem (h : a.lowest? = some b) :
    b ∈ a.blocks ∧ ∀ x ∈ a.blocks, b.height.toNat ≤ x.height.toNat := by
  unfold lowest? at h
  split at h
  · cases h
  · rename_i x xs hblocks
    cases h
    rw [hblocks]
    refine foldl_pick (R := fun x y => x.height.toNat ≤ y.height.toNat) (fun _ => Nat.le_refl _)
      Nat.le_trans (fun x y => ?_) (fun x y => ?_) xs x
    · split <;> simp
    · split <;> rename_i hlt <;> rw [UInt32.lt_iff_toNat_lt] at hlt <;> omega

theorem highest?_mem (h : a.highest? = some b) :
    b ∈ a.blocks ∧ ∀ x ∈ a.blocks, x.height.toNat ≤ b.height.toNat := by
  unfold highest? at h
  split at h
  · cases h
  · rename_i x xs hblocks
    cases h
    rw [hblocks]
    refine foldl_pick (R := fun x y => y.height.toNat ≤ x.height.toNat) (fun _ => Nat.le_refl _)
      (fun hxy hyz => Nat.le_trans hyz hxy) (fun x y => ?_) (fun x y => ?_) xs x
    · split <;> simp
    · split <;> rename_i hlt <;> rw [UInt32.lt_iff_toNat_lt] at hlt <;> omega

end Answer

namespace Blockchain

variable {c : Blockchain} {page h : Nat} {addresses : List String} {a : Answer}

/-- An honest answer to a request for the addresses from a height on. -/
def Answers (c : Blockchain) (page : Nat) (addresses : List String) (h : Nat) (a : Answer) : Prop :=
  ∃ all : List Transaction, all.Perm ((c.onwards h).filter (·.touches addresses)) ∧
    all.Pairwise (fun x y => x.height?.getD 0 ≤ y.height?.getD 0) ∧
    a = ⟨all.take page, page < all.length⟩

/-- The answers of an honest explorer.  To a request from no known block it may say anything. -/
def replies (c : Blockchain) (page : Nat) : Replies := fun addresses start a =>
  ∀ h, c.StartsAt start h → c.Answers page addresses h a

namespace Answers

theorem mined_of_mem (ha : c.Answers page addresses h a) {tx : Transaction}
    (htx : tx ∈ a.transactions) : ∃ k, h ≤ k ∧ tx ∈ c.touching addresses k := by
  obtain ⟨all, hperm, -, rfl⟩ := ha
  obtain ⟨hon, htouches⟩ := List.mem_filter.1 (hperm.mem_iff.1 (List.mem_of_mem_take htx))
  obtain ⟨k, hle, hmined⟩ := mem_onwards.1 hon
  exact ⟨k, hle, mem_touching.2 ⟨hmined, htouches⟩⟩

/-- A match that is missing was cut off behind the page. -/
theorem mem_or_cut (ha : c.Answers page addresses h a) {k : Nat} (hle : h ≤ k) {tx : Transaction}
    (htx : tx ∈ c.touching addresses k) : tx ∈ a.transactions ∨
      a.truncated = true ∧ ∀ y ∈ a.transactions, ∀ l, y.height? = some l → l ≤ k := by
  obtain ⟨all, hperm, hsorted, rfl⟩ := ha
  obtain ⟨hmined, htouches⟩ := mem_touching.1 htx
  have hall : tx ∈ all :=
    hperm.mem_iff.2 (List.mem_filter.2 ⟨mem_onwards.2 ⟨k, hle, hmined⟩, htouches⟩)
  rw [← List.take_append_drop page all] at hall hsorted
  rcases List.mem_append.1 hall with htake | hdrop
  · exact .inl htake
  · refine .inr ⟨decide_eq_true ?_, fun y hy l hl => ?_⟩
    · by_contra hshort
      rw [List.drop_eq_nil_of_le (Nat.not_lt.1 hshort)] at hdrop
      cases hdrop
    · have hyx := (List.pairwise_append.1 hsorted).2.2 y hy tx hdrop
      rwa [hl, height?_of_mem_mined hmined] at hyx

/-- With room for one transaction on a page, an answer without any says that nothing matches. -/
theorem eq_nil (ha : c.Answers page addresses h a) (hpage : 1 ≤ page)
    (hnil : a.transactions = []) {k : Nat} (hle : h ≤ k) : c.touching addresses k = [] := by
  refine List.eq_nil_iff_forall_not_mem.2 fun tx htx => ?_
  rcases ha.mem_or_cut hle htx with hmem | ⟨hcut, -⟩
  · rw [hnil] at hmem
    cases hmem
  · obtain ⟨all, -, -, rfl⟩ := ha
    have hlong : page < all.length := of_decide_eq_true hcut
    have hlength := congrArg List.length hnil
    rw [List.length_take, List.length_nil] at hlength
    omega

theorem blocks_eq_nil_iff (ha : c.Answers page addresses h a) :
    a.blocks = [] ↔ a.transactions = [] := by
  refine ⟨fun hnil => List.eq_nil_iff_forall_not_mem.2 fun tx htx => ?_,
    fun hnil => by simp [Answer.blocks, hnil]⟩
  obtain ⟨k, -, hk⟩ := ha.mined_of_mem htx
  obtain ⟨header, -, hblock⟩ := block_of_mem_mined (mem_touching.1 hk).1
  have hmem := Answer.mem_blocks.2 ⟨tx, htx, hblock⟩
  rw [hnil] at hmem
  cases hmem

/-- A block of an answer is one of the chain, with a match in it. -/
theorem header?_of_mem_blocks (ha : c.Answers page addresses h a) {b : Block} (hb : b ∈ a.blocks) :
    h ≤ b.height.toNat ∧ c.header? b.height.toNat = some b ∧
      ∃ tx ∈ a.transactions, tx ∈ c.touching addresses b.height.toNat := by
  obtain ⟨tx, htx, hblock⟩ := Answer.mem_blocks.1 hb
  obtain ⟨k, hle, hk⟩ := ha.mined_of_mem htx
  have hheader := header?_of_block (mem_touching.1 hk).1 hblock
  obtain rfl := height_of_header? hheader
  exact ⟨hle, hheader, tx, htx, hk⟩

/-! ### What a task concludes -/

variable {t : Task}

/-- **Nothing is found where nothing is.** -/
theorem quiet (ha : c.Answers page t.batch.addresses t.lo a) (hpage : 1 ≤ page)
    (hjudge : t.judge a = .ok .quiet) {k : Nat} (hle : t.lo ≤ k) :
    c.touching t.batch.addresses k = [] := by
  exact ha.eq_nil hpage (ha.blocks_eq_nil_iff.1 (Task.judge_eq_quiet_iff.1 hjudge)) hle

/-- What a task knows of the chain after an answer in which it found blocks. -/
structure Knows (c : Blockchain) (t : Task) (a : Answer) (low high : Block) (lastFull : Nat) :
    Prop where
  header_low : c.header? low.height.toNat = some low
  le_low : t.lo ≤ low.height.toNat
  touched_low : c.touching t.batch.addresses low.height.toNat ≠ []
  /-- There is no match below the lowest block. -/
  first : ∀ {k}, t.lo ≤ k → c.touching t.batch.addresses k ≠ [] → low.height.toNat ≤ k
  /-- The heights after the completely known ones begin with the highest block. -/
  rest : lastFull < t.hi → c.header? (lastFull + 1) = some high ∧ t.lo ≤ lastFull
  /-- No match is missing through the last completely known height. -/
  full : ∀ {k tx}, t.lo ≤ k → k ≤ lastFull → k ≤ t.hi → tx ∈ c.touching t.batch.addresses k →
    tx ∈ a.transactions

/-- **What is found is known exactly** through the last completely known height. -/
theorem active (ha : c.Answers page t.batch.addresses t.lo a) {low high : Block} {lastFull : Nat}
    (hjudge : t.judge a = .ok (.active low high lastFull)) : Knows c t a low high lastFull := by
  obtain ⟨hlow, hhigh, -, hlast⟩ := Task.judge_eq_active_iff.1 hjudge
  obtain ⟨hlowmem, hlowest⟩ := Answer.lowest?_mem hlow
  obtain ⟨hhighmem, hhighest⟩ := Answer.highest?_mem hhigh
  obtain ⟨hle, hheader, tx, -, htx⟩ := ha.header?_of_mem_blocks hlowmem
  obtain ⟨hle', hheader', -, -, -⟩ := ha.header?_of_mem_blocks hhighmem
  refine ⟨hheader, hle, List.ne_nil_of_mem htx, ?_, ?_, ?_⟩
  -- what the answer leaves out lies behind all that it shows, so nothing lies before its lowest block
  · intro k hk hne
    obtain ⟨y, hy⟩ := List.exists_mem_of_ne_nil _ hne
    rcases ha.mem_or_cut hk hy with hmem | ⟨-, hbehind⟩
    · obtain ⟨header, hheader, hblock⟩ := block_of_mem_mined (mem_touching.1 hy).1
      have := hlowest header (Answer.mem_blocks.2 ⟨y, hmem, hblock⟩)
      rwa [height_of_header? hheader] at this
    · obtain ⟨y, hy, hblock⟩ := Answer.mem_blocks.1 hlowmem
      exact hbehind y hy _ (by rw [Transaction.height?, hblock, Option.map_some])
  · intro hlt
    rcases hlast with ⟨-, rfl⟩ | ⟨-, hne, rfl⟩
    · exact absurd hlt (Nat.lt_irrefl _)
    · have hback : high.height.toNat - 1 + 1 = high.height.toNat := by omega
      rw [hback]
      exact ⟨hheader', by omega⟩
  · intro k y hk hfull _ hy
    rcases ha.mem_or_cut hk hy with hmem | ⟨hcut, hbehind⟩
    · exact hmem
    · rcases hlast with ⟨hwhole, -⟩ | ⟨-, hne, rfl⟩
      · rw [hwhole] at hcut
        cases hcut
      · obtain ⟨z, hz, hblock⟩ := Answer.mem_blocks.1 hhighmem
        have := hbehind z hz _ (by rw [Transaction.height?, hblock, Option.map_some])
        omega

end Answers
end Blockchain
end WatchWallet
