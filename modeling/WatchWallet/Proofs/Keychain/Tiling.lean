import WatchWallet.Proofs.Keychain.Batches

/-!
# Keychain — Tiling

The batches of a chain stand one right after the other (`Consecutive`), so together they hold the addresses
from the first position to their frontier, in order and each once (`Consecutive.flatMap_addresses`).  That is
so of the regular batches that a chain is cut into (`Cuts`), of the gap batch after them and of all gap batches
that follow it, whatever is marked in between (`bootstrap_tiles`).
-/

namespace WatchWallet.Batch

variable {chain : List String} {width used gap start : Nat}

/-! ### Consecutive batches -/

/-- The batches stand one right after the other from a position of the chain on. -/
def Consecutive (chain : List String) : Nat → List Batch → Prop
  | _, [] => True
  | start, b :: bs =>
    (∃ count, 0 < count ∧ b = derive chain start count b.kind) ∧ Consecutive chain (b.last + 1) bs

/-- The position right after consecutive batches that start at a position. -/
def frontier (start : Nat) : List Batch → Nat
  | [] => start
  | b :: bs => frontier (b.last + 1) bs

theorem frontier_append (start : Nat) (bs cs : List Batch) :
    frontier start (bs ++ cs) = frontier (frontier start bs) cs := by
  induction bs generalizing start with
  | nil => rfl
  | cons b bs ih => exact ih (b.last + 1)

theorem Consecutive.append {bs cs : List Batch} (hbs : Consecutive chain start bs)
    (hcs : Consecutive chain (frontier start bs) cs) : Consecutive chain start (bs ++ cs) := by
  induction bs generalizing start with
  | nil => exact hcs
  | cons b bs ih => exact ⟨hbs.1, ih hbs.2 hcs⟩

theorem last_derive {count : Nat} (hcount : 0 < count) (kind : BatchKind) :
    (derive chain start count kind).last + 1 = start + count :=
  Nat.sub_add_cancel (Nat.le_trans hcount (Nat.le_add_left ..))

theorem Consecutive.start_le {bs : List Batch} (h : Consecutive chain start bs) :
    start ≤ frontier start bs := by
  induction bs generalizing start with
  | nil => exact Nat.le_refl _
  | cons b bs ih =>
      obtain ⟨⟨count, hcount, hb⟩, hbs⟩ := h
      have hlast : b.last + 1 = start + count := hb ▸ last_derive hcount b.kind
      exact Nat.le_trans (hlast ▸ Nat.le_add_right ..) (ih hbs)

/-- No batch reaches beyond the frontier. -/
theorem Consecutive.last_lt {bs : List Batch} (h : Consecutive chain start bs) {b : Batch}
    (hb : b ∈ bs) : b.last < frontier start bs := by
  induction bs generalizing start with
  | nil => cases hb
  | cons c bs ih =>
      rcases List.mem_cons.1 hb with rfl | hb
      · exact h.2.start_le
      · exact ih h.2 hb

/-- **Consecutive batches hold every position up to their frontier once**, as far as the chain goes. -/
theorem Consecutive.flatMap_addresses {bs : List Batch} (h : Consecutive chain start bs) :
    bs.flatMap (·.addresses) = (chain.drop start).take (frontier start bs - start) := by
  induction bs generalizing start with
  | nil =>
      rw [frontier, Nat.sub_self]
      rfl
  | cons b bs ih =>
      obtain ⟨⟨count, hcount, hb⟩, hbs⟩ := h
      have hlast : b.last + 1 = start + count := hb ▸ last_derive hcount b.kind
      have haddresses : b.addresses = (chain.drop start).take count := by rw [hb, derive]
      have hle := hbs.start_le
      have hsplit : frontier (b.last + 1) bs - start =
          count + (frontier (b.last + 1) bs - (start + count)) := by omega
      rw [List.flatMap_cons, ih hbs, frontier, hsplit, List.take_add, List.drop_drop, haddresses, hlast]

/-! ### Regular batches -/

/-- What the loop that cuts the used addresses into batches ends with, once it has come to a position. -/
inductive Cuts (chain : List String) (width used : Nat) : Nat → List Batch → Prop where
  | stop {start : Nat} (h : used ≤ start) : Cuts chain width used start []
  | next {start : Nat} {bs : List Batch} (h : start < used)
      (hbs : Cuts chain width used (start + min width (used - start)) bs) :
      Cuts chain width used start (derive chain start (min width (used - start)) .regular :: bs)

theorem Cuts.unique {bs cs : List Batch} (hbs : Cuts chain width used start bs)
    (hcs : Cuts chain width used start cs) : bs = cs := by
  induction hbs generalizing cs with
  | stop h =>
      cases hcs with
      | stop => rfl
      | next h' => exact absurd h' (Nat.not_lt.2 h)
  | next h _ ih =>
      cases hcs with
      | stop h' => exact absurd h (Nat.not_lt.2 h')
      | next _ hcs => rw [ih hcs]

/-- From the piece of a number on, the loop makes the pieces that are left. -/
theorem cuts_pieces (hwidth : 0 < width) (i left : Nat)
    (hleft : i + left = (used + width - 1) / width) :
    Cuts chain width used (min (i * width) used) ((List.range' i left).map fun i =>
      derive chain (i * width) (min width (used - i * width)) .regular) := by
  have hpiece : i < (used + width - 1) / width ↔ i * width < used := lt_count_iff hwidth
  induction left generalizing i with
  | zero => exact .stop (by omega)
  | succ left ih =>
      have hlt : i * width < used := hpiece.1 (by omega)
      have hstart : min (i * width) used = i * width := Nat.min_eq_left (Nat.le_of_lt hlt)
      have hnext : i * width + min width (used - i * width) = min ((i + 1) * width) used := by
        rw [Nat.succ_mul]
        omega
      rw [List.range'_succ, List.map_cons, hstart]
      refine .next hlt ?_
      rw [hnext]
      exact ih (i + 1) (by omega) (lt_count_iff hwidth)

/-- **The loop ends** for batches of any width, and the regular batches are what it ends with. -/
theorem cuts_iff (hwidth : 0 < width) {bs : List Batch} :
    Cuts chain width used 0 bs ↔ bs = regulars chain width used := by
  have hregulars : Cuts chain width used 0 (regulars chain width used) := by
    have hpieces : Cuts chain width used (min (0 * width) used) _ := cuts_pieces hwidth 0 _ (Nat.zero_add _)
    rwa [Nat.zero_mul, Nat.zero_min, ← List.range_eq_range'] at hpieces
  exact ⟨fun h => h.unique hregulars, fun h => h ▸ hregulars⟩

theorem Cuts.consecutive (hwidth : 0 < width) {bs : List Batch} (h : Cuts chain width used start bs) :
    Consecutive chain start bs := by
  induction h with
  | stop h => trivial
  | next h _ ih =>
      have hcount : 0 < min width (used - _) := Nat.lt_min.2 ⟨hwidth, Nat.sub_pos_of_lt h⟩
      exact ⟨⟨_, hcount, rfl⟩, by rw [last_derive hcount]; exact ih⟩

theorem Cuts.frontier_eq (hwidth : 0 < width) {bs : List Batch} (h : Cuts chain width used start bs)
    (hstart : start ≤ used) : frontier start bs = used := by
  induction h with
  | stop h => exact Nat.le_antisymm hstart h
  | next h _ ih =>
      have hcount : 0 < min width (used - _) := Nat.lt_min.2 ⟨hwidth, Nat.sub_pos_of_lt h⟩
      rw [frontier, last_derive hcount]
      exact ih (by omega)

/-- A batch of used addresses has as many as it was cut for. -/
theorem length_addresses_derive {count : Nat} (h : start + count ≤ chain.length) (kind : BatchKind) :
    (derive chain start count kind).addresses.length = count := by
  rw [derive, List.length_take, List.length_drop]
  omega

/-- No batch is empty, none is wider than the width, and all but the last are as wide. -/
theorem Cuts.length_addresses (hwidth : 0 < width) (hused : used ≤ chain.length) {bs : List Batch}
    (h : Cuts chain width used start bs) :
    (∀ b ∈ bs, b.kind = .regular ∧ 0 < b.addresses.length ∧ b.addresses.length ≤ width) ∧
      ∀ b ∈ bs.dropLast, b.addresses.length = width := by
  induction h with
  | stop => exact ⟨fun _ hb => absurd hb List.not_mem_nil, fun _ hb => absurd hb List.not_mem_nil⟩
  | @next start bs h hbs ih =>
      have hcount : 0 < min width (used - start) := Nat.lt_min.2 ⟨hwidth, Nat.sub_pos_of_lt h⟩
      have hlength : (derive chain start (min width (used - start)) .regular).addresses.length =
          min width (used - start) := length_addresses_derive (by omega) .regular
      refine ⟨fun b hb => ?_, fun b hb => ?_⟩
      · rcases List.mem_cons.1 hb with rfl | hb
        · rw [hlength]
          exact ⟨rfl, hcount, Nat.min_le_left ..⟩
        · exact ih.1 b hb
      · -- A batch that is not the last has all of its width, since more used addresses come after it.
        cases hbs with
        | stop => exact absurd hb List.not_mem_nil
        | next hmore hrest =>
            rw [List.dropLast_cons_of_ne_nil (List.cons_ne_nil _ _)] at hb
            rcases List.mem_cons.1 hb with rfl | hb
            · rw [hlength]
              omega
            · exact ih.2 b hb

/-! ### Gap batches -/

/-- The gap batches after a batch, one for each round: the addresses of the round are marked, and the next
batch is derived. -/
def followed (gap : Nat) : Keychain → Batch → List (List String) → List Batch
  | _, _, [] => []
  | k, b, marks :: rounds =>
    let marked := k.markAll marks
    let next := b.nextGap marked.addresses gap
    next :: followed gap marked next rounds

/-- The next gap batch does not depend on what is marked. -/
theorem nextGap_markAll (b : Batch) (k : Keychain) (marks : List String) :
    b.nextGap (k.markAll marks).addresses gap = b.nextGap k.addresses gap := by
  rw [Keychain.addresses_markAll]

theorem consecutive_followed (hgap : 0 < gap) (k : Keychain) (b : Batch) (rounds : List (List String)) :
    Consecutive k.addresses (b.last + 1) (followed gap k b rounds) ∧
      frontier (b.last + 1) (followed gap k b rounds) = b.last + 1 + rounds.length * gap := by
  induction rounds generalizing k b with
  | nil => exact ⟨trivial, by rw [followed, frontier, List.length_nil, Nat.zero_mul, Nat.add_zero]⟩
  | cons marks rounds ih =>
      have hlast : (b.nextGap k.addresses gap).last + 1 = b.last + 1 + gap := last_derive hgap .gap
      obtain ⟨hconsecutive, hfrontier⟩ := ih (k.markAll marks) (b.nextGap k.addresses gap)
      rw [Keychain.addresses_markAll] at hconsecutive
      dsimp only [followed]
      rw [Keychain.addresses_markAll]
      refine ⟨⟨⟨gap, hgap, rfl⟩, hconsecutive⟩, ?_⟩
      rw [frontier, hfrontier, hlast, List.length_cons, Nat.succ_mul]
      omega

/-! ### All batches -/

/-- **The batches tile the chain.**  The loop ends, and the first batches of a keychain are the regular ones
that it makes and a gap batch.  No regular batch is empty, and all but the last have the width.  Together with
the gap batches that follow, they stand one right after the other and hold the addresses up to the frontier in
order, each position once; no position is beyond 32 bits on the way, and what is marked meanwhile does not
change which batch is next. -/
theorem bootstrap_tiles (k : Keychain) (hwidth : 0 < width) (hgap : 0 < gap)
    (rounds : List (List String)) (hfits : k.used + (rounds.length + 1) * gap < UInt32.size) :
    let regular := regulars k.addresses width k.used
    let first := derive k.addresses k.used gap .gap
    let batches := bootstrap k width gap ++ followed gap k first rounds
    (∀ bs, Cuts k.addresses width k.used 0 bs ↔ bs = regular) ∧
    bootstrap k width gap = regular ++ [first] ∧
    (∀ b ∈ regular, b.kind = .regular ∧ 0 < b.addresses.length ∧ b.addresses.length ≤ width) ∧
    (∀ b ∈ regular.dropLast, b.addresses.length = width) ∧
    Consecutive k.addresses 0 batches ∧
    batches.flatMap (·.addresses) =
      k.addresses.take (min k.size (k.used + (rounds.length + 1) * gap)) ∧
    (∀ b ∈ batches, b.last + 1 < UInt32.size) ∧
    ∀ (b : Batch) (marks : List String),
      b.nextGap (k.markAll marks).addresses gap = b.nextGap k.addresses gap := by
  intro regular first batches
  have hcuts : Cuts k.addresses width k.used 0 regular := (cuts_iff hwidth).2 rfl
  obtain ⟨hregular, hfull⟩ := hcuts.length_addresses hwidth k.used_le
  have hused : frontier 0 regular = k.used := hcuts.frontier_eq hwidth (Nat.zero_le _)
  have hlast : first.last + 1 = k.used + gap := last_derive hgap .gap
  obtain ⟨hfollowed, hend⟩ := consecutive_followed hgap k first rounds
  have hgaps : Consecutive k.addresses k.used (first :: followed gap k first rounds) :=
    ⟨⟨gap, hgap, rfl⟩, hfollowed⟩
  have hbatches : batches = regular ++ first :: followed gap k first rounds := by
    simp only [batches, bootstrap, List.append_assoc, List.singleton_append, regular, first]
  have hconsecutive : Consecutive k.addresses 0 batches := by
    rw [hbatches]
    exact (hcuts.consecutive hwidth).append (hused ▸ hgaps)
  have hfrontier : frontier 0 batches = k.used + (rounds.length + 1) * gap := by
    rw [hbatches, frontier_append, hused, frontier, hend, hlast, Nat.succ_mul]
    omega
  refine ⟨fun bs => cuts_iff hwidth, rfl, hregular, hfull, hconsecutive, ?_, fun b hb => ?_,
    fun b marks => nextGap_markAll b k marks⟩
  · rw [hconsecutive.flatMap_addresses, hfrontier, List.drop_zero, Nat.sub_zero, Keychain.size,
      List.take_eq_take_min, Nat.min_comm]
  · exact Nat.lt_of_le_of_lt (hconsecutive.last_lt hb) (hfrontier ▸ hfits)

/-- Five of eight addresses are used, two in each batch: the last regular batch has one, and the chain ends
inside the second gap batch. -/
theorem bootstrap_tiles_eightAddresses :
    let k := Keychain.ofList ["a", "b", "c", "d", "e", "f", "g", "h"] 5
    (bootstrap k 2 2 ++ followed 2 k (derive k.addresses 5 2 .gap) [["g"]]).map (·.addresses) =
        [["a", "b"], ["c", "d"], ["e"], ["f", "g"], ["h"]] ∧
      (bootstrap k 2 2 ++ followed 2 k (derive k.addresses 5 2 .gap) [["g"]]).flatMap (·.addresses) =
        k.addresses.take (min k.size (k.used + (1 + 1) * 2)) := by
  intro k
  have htiles := bootstrap_tiles k (show 0 < 2 by decide) (show 0 < 2 by decide) [["g"]] (by decide)
  exact ⟨by decide, htiles.2.2.2.2.2.1⟩

end WatchWallet.Batch
