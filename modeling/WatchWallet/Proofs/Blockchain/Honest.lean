import WatchWallet.Proofs.Blockchain.Paging

/-!
# Blockchain — Honest explorers

An explorer is honest about a chain if whatever it answers is true of the chain; it may fail at any
time (`Explorer.Honest`).  Every chain has an honest explorer (`honest_explorer`).
-/

namespace WatchWallet

namespace Blockchain

/-- The header of the last block. -/
def tip? (c : Blockchain) : Option Block := c.blocks.getLast?.map (·.header)

/-- The height at which a request starts. -/
def startHeight? (c : Blockchain) : Option String → Option Nat
  | none => some 0
  | some hash => c.blocks.findIdx? (·.header.hash == hash)

/-- What touches the addresses from a height on, cut after a page. -/
def answer (c : Blockchain) (page : Nat) (addresses : List String) (h : Nat) : Answer :=
  let all := (c.onwards h).filter (·.touches addresses)
  ⟨all.take page, page < all.length⟩

/-- An explorer of the chain that never fails and takes no time. -/
def explorer (c : Blockchain) (page : Nat) : Explorer Unit where
  delay s := (0, s)
  transactions addresses start s :=
    match c.startHeight? start with
    | none => (.error (.blockNotFound (start.getD "")), s)
    | some h => (.ok (c.answer page addresses h), s)
  tip s :=
    match c.tip? with
    | none => (.error (.blockNotFound "tip"), s)
    | some block => (.ok block, s)
  block h s := (.ok (c.header? h), s)
  pending _ s := (.ok [], s)

end Blockchain

/-- Whatever the explorer answers is true of the chain. -/
structure Explorer.Honest {σ : Type} (explorer : Explorer σ) (c : Blockchain) (page : Nat) :
    Prop where
  keeps : explorer.Keeps (c.replies page)
  tip : ∀ {s block s'}, explorer.tip s = (.ok block, s') → c.tip? = some block
  block : ∀ {h s found s'}, explorer.block h s = (.ok found, s') → found = c.header? h

namespace Blockchain

variable {c : Blockchain}

theorem pairwise_onwards (c : Blockchain) (h : Nat) :
    (c.onwards h).Pairwise (fun x y => x.height?.getD 0 ≤ y.height?.getD 0) := by
  have hheight : ∀ b ∈ c.blocks.drop h, ∀ tx ∈ b.transactions, tx.height?.getD 0 = b.height := by
    intro b hb tx htx
    rw [Transaction.height?, c.block_eq b (List.mem_of_mem_drop hb) tx htx]
    rfl
  have hblocks : (c.blocks.drop h).Pairwise (fun b b' => b.height ≤ b'.height) := by
    refine List.Pairwise.sublist (List.drop_sublist h _) (List.pairwise_map.1 ?_)
    rw [c.heights]
    exact List.pairwise_lt_range.imp Nat.le_of_lt
  rw [onwards, List.pairwise_flatMap]
  refine ⟨fun b hb => List.pairwise_of_forall_mem_list fun x hx y hy => ?_,
    hblocks.imp_of_mem fun hb hb' hle x hx y hy => ?_⟩
  · exact Nat.le_of_eq ((hheight b hb x hx).trans (hheight b hb y hy).symm)
  · rw [hheight _ hb x hx, hheight _ hb' y hy]
    exact hle

theorem answers_answer (c : Blockchain) (page : Nat) (addresses : List String) (h : Nat) :
    c.Answers page addresses h (c.answer page addresses h) :=
  ⟨_, .refl _, (c.pairwise_onwards h).filter _, rfl⟩

theorem startsAt_of_startHeight? {start : Option String} {h : Nat}
    (hh : c.startHeight? start = some h) : c.StartsAt start h := by
  cases start with
  | none => exact (Option.some.inj hh).symm
  | some hash =>
      obtain ⟨hlt, heq, -⟩ := List.findIdx?_eq_some_iff_getElem.1 hh
      exact ⟨c.blocks[h].header, by rw [header?, List.getElem?_eq_getElem hlt, Option.map_some],
        eq_of_beq heq⟩

/-- **Every chain has an honest explorer.** -/
theorem honest_explorer (c : Blockchain) (page : Nat) : (c.explorer page).Honest c page := by
  refine ⟨?_, ?_, ?_⟩
  · intro addresses start s a s' h k hk
    simp only [explorer] at h
    split at h
    · cases h
    · rename_i l hl
      cases h
      rw [hk.unique (startsAt_of_startHeight? hl)]
      exact c.answers_answer page addresses l
  · intro s block s' h
    simp only [explorer] at h
    split at h
    · cases h
    · rename_i hblock
      cases h
      exact hblock
  · intro h s found s' hfound
    cases hfound
    rfl

end Blockchain
end WatchWallet
