import WatchWallet.Proofs.Blockchain.Paging
import WatchWallet.Proofs.Keychain.Batches

/-!
# Window — Discovery

Which addresses a scan looks at, from which height on.  The used addresses of a chain are looked at
from the first height on, and so is the gap batch after them; the gap batch that follows another is
looked at from the first match of that one on (`Search.Watched`).  When activity never skips a whole
gap, a scan looks at every address in time (`Search.seen_of_touchedAt`).
-/

namespace WatchWallet

/-- What a scan searches: a chain of blocks from a height on, for the addresses of an account. -/
structure Search where
  blockchain : Blockchain
  /-- The addresses of each chain. -/
  addresses : Chain → List String
  /-- The number of addresses of each chain that are known to be used. -/
  used : Chain → Nat
  /-- The number of addresses in a gap batch. -/
  gap : Nat
  /-- The first height. -/
  lo : Nat

namespace Search

variable (s : Search) (c : Chain)

/-- The gap batch with a number, counted from the used addresses on. -/
def batch (j : Nat) : Batch :=
  .derive (s.addresses c) (s.used c + j * s.gap) s.gap .gap

/-- Some transaction at the height touches the gap batch. -/
def Hits (j x : Nat) : Prop := s.blockchain.touching (s.batch c j).addresses x ≠ []

/-- The height is one at which the gap batch with a number is looked at. -/
inductive Watched : Nat → Nat → Prop where
  | first {x : Nat} (hlo : s.lo ≤ x) : Watched 0 x
  | next {j x y : Nat} (h : Watched j y) (hhit : s.Hits c j y) (hle : y ≤ x) : Watched (j + 1) x

/-- The height is one at which the address with an index is looked at. -/
def Seen (i x : Nat) : Prop :=
  s.lo ≤ x ∧ (i < s.used c ∨ s.Watched c ((i - s.used c) / s.gap) x)

/-- The transaction touches an address that is looked at. -/
def Found (x : Nat) (tx : Transaction) : Prop :=
  tx ∈ s.blockchain.mined x ∧
    ∃ c i a, (s.addresses c)[i]? = some a ∧ s.Seen c i x ∧ tx.touches [a] = true

/-- The transaction touches an address of a chain that is looked at. -/
def FoundWith (x : Nat) (tx : Transaction) : Prop :=
  tx ∈ s.blockchain.mined x ∧
    ∃ i a, (s.addresses c)[i]? = some a ∧ s.Seen c i x ∧ tx.touches [a] = true

/-- The counts of used addresses after a search below a height: each reaches as far as the addresses
that are paid by what is found with their own chain, and no further. -/
def Counts (stop : Nat) (used : Chain → Nat) : Prop :=
  ∀ c k, used c ≤ k ↔ s.used c ≤ k ∧ ∀ {x tx i a}, s.FoundWith c x tx → x < stop →
    (s.addresses c)[i]? = some a → a ∈ tx.paidAddresses → i < k

/-- Activity on a chain of addresses keeps to the gap: what is not known to be used is new, and what
lies behind the first gap is touched only after one of the addresses in the gap before it. -/
structure Disciplined (hi : Nat) : Prop where
  fresh : ∀ {i a x}, (s.addresses c)[i]? = some a → s.used c ≤ i → x < s.lo →
    ¬ s.blockchain.TouchedAt a x
  reached : ∀ {i a x}, (s.addresses c)[i]? = some a → s.used c + s.gap ≤ i → x ≤ hi →
    s.blockchain.TouchedAt a x → ∃ k b y, i - s.gap ≤ k ∧ k < i ∧ (s.addresses c)[k]? = some b ∧
      y ≤ x ∧ s.blockchain.TouchedAt b y

variable {s : Search} {c : Chain}

theorem FoundWith.found {x : Nat} {tx : Transaction} (h : s.FoundWith c x tx) : s.Found x tx :=
  ⟨h.1, c, h.2⟩

/-! ### Gap batches -/

theorem mem_batch {j : Nat} {a : String} : a ∈ (s.batch c j).addresses ↔
    ∃ i, (s.addresses c)[i]? = some a ∧ s.used c + j * s.gap ≤ i ∧
      i < s.used c + (j + 1) * s.gap := by
  rw [Nat.succ_mul, ← Nat.add_assoc]
  exact Batch.mem_derive

/-- The next gap batch starts where a gap batch ends. -/
theorem nextGap_batch (hgap : 0 < s.gap) (j : Nat) :
    (s.batch c j).nextGap (s.addresses c) s.gap = s.batch c (j + 1) := by
  have hnext : s.used c + j * s.gap + s.gap - 1 + 1 = s.used c + (j + 1) * s.gap := by
    rw [Nat.succ_mul]
    omega
  simp only [Batch.nextGap, batch, Batch.derive, hnext]

/-- The gap batch of an index. -/
theorem div_eq_iff (hgap : 0 < s.gap) {i j : Nat} (hi : s.used c ≤ i) :
    (i - s.used c) / s.gap = j ↔ s.used c + j * s.gap ≤ i ∧ i < s.used c + (j + 1) * s.gap := by
  rw [Nat.div_eq_iff hgap, Nat.succ_mul]
  omega

theorem hits_of_touchedAt {i j x : Nat} {a : String} (ha : (s.addresses c)[i]? = some a)
    (hle : s.used c + j * s.gap ≤ i) (hlt : i < s.used c + (j + 1) * s.gap)
    (htouched : s.blockchain.TouchedAt a x) : s.Hits c j x := by
  obtain ⟨tx, htx, htouches⟩ := htouched
  refine List.ne_nil_of_mem (a := tx) (Blockchain.mem_touching.2 ⟨htx, ?_⟩)
  exact Transaction.touches_iff.2 ⟨a, mem_batch.2 ⟨i, ha, hle, hlt⟩, htouches⟩

/-! ### From which height on -/

theorem Watched.lo_le {j x : Nat} (h : s.Watched c j x) : s.lo ≤ x := by
  induction h with
  | first hlo => exact hlo
  | next _ _ hle ih => exact Nat.le_trans ih hle

theorem Watched.mono {j x y : Nat} (h : s.Watched c j x) (hle : x ≤ y) : s.Watched c j y := by
  cases h with
  | first hlo => exact .first (Nat.le_trans hlo hle)
  | next h hhit hle' => exact .next h hhit (Nat.le_trans hle' hle)

theorem Seen.mono {i x y : Nat} (h : s.Seen c i x) (hle : x ≤ y) : s.Seen c i y :=
  ⟨Nat.le_trans h.1 hle, h.2.imp_right fun hw => hw.mono hle⟩

/-- Before a gap batch is looked at, every gap batch before it is hit. -/
theorem Watched.passed {j k x : Nat} (h : s.Watched c k x) (hlt : j < k) :
    ∃ y, y ≤ x ∧ s.Watched c j y ∧ s.Hits c j y := by
  induction h with
  | first _ => cases hlt
  | @next k x y hw hhit hle ih =>
      rcases Nat.lt_succ_iff_lt_or_eq.1 hlt with hlt | rfl
      · obtain ⟨z, hz, hwz, hhitz⟩ := ih hlt
        exact ⟨z, Nat.le_trans hz hle, hwz, hhitz⟩
      · exact ⟨y, hle, hw, hhit⟩

/-- **A scan looks at every address in time** when activity keeps to the gap. -/
theorem seen_of_touchedAt (hgap : 0 < s.gap) {hi : Nat} (hd : s.Disciplined c hi) {i x : Nat}
    {a : String} (ha : (s.addresses c)[i]? = some a) (hlo : s.lo ≤ x) (hhi : x ≤ hi)
    (htouched : s.blockchain.TouchedAt a x) : s.Seen c i x := by
  -- the indices in the gap before one are smaller, and they are touched no later
  induction i using Nat.strongRecOn generalizing x a with
  | ind i ih =>
      refine ⟨hlo, ?_⟩
      by_cases hused : i < s.used c
      · exact .inl hused
      refine .inr ?_
      by_cases hfirst : i < s.used c + s.gap
      · rw [Nat.div_eq_of_lt (by omega)]
        exact .first hlo
      · obtain ⟨k, b, y, hback, hlt, hb, hle, hy⟩ :=
          hd.reached ha (Nat.not_lt.1 hfirst) hhi htouched
        have hnew : s.used c ≤ k := by omega
        have hylo : s.lo ≤ y := by
          by_contra hbefore
          exact hd.fresh hb hnew (Nat.not_le.1 hbefore) hy
        obtain ⟨-, hold | hw⟩ := ih k hlt hb hylo (Nat.le_trans hle hhi) hy
        · omega
        obtain ⟨hk₁, hk₂⟩ := (div_eq_iff hgap hnew).1 rfl
        have hnext : s.Watched c ((k - s.used c) / s.gap + 1) x :=
          .next hw (hits_of_touchedAt hb hk₁ hk₂ hy) hle
        rw [Nat.succ_mul] at hk₂
        by_cases hsame : i < s.used c + ((k - s.used c) / s.gap + 1) * s.gap
        · rw [(div_eq_iff hgap (by omega)).2 ⟨by omega, hsame⟩]
          exact hw.mono hle
        · rw [(div_eq_iff hgap (by omega)).2 ⟨Nat.not_lt.1 hsame, by
            rw [Nat.succ_mul, Nat.succ_mul]; omega⟩]
          exact hnext

/-- When activity keeps to the gap, a scan finds what touches the account. -/
theorem found_iff (hgap : 0 < s.gap) {hi : Nat} (hd : ∀ c, s.Disciplined c hi) {x : Nat}
    (hlo : s.lo ≤ x) (hhi : x ≤ hi) {tx : Transaction} : s.Found x tx ↔
      tx ∈ s.blockchain.touching (s.addresses .receive ++ s.addresses .change) x := by
  rw [Found, Blockchain.mem_touching, and_congr_right_iff]
  intro htx
  rw [Transaction.touches_iff]
  constructor
  · rintro ⟨c, i, a, ha, -, htouches⟩
    have hmem := List.mem_of_getElem? ha
    refine ⟨a, List.mem_append.2 ?_, htouches⟩
    cases c with
    | receive => exact .inl hmem
    | change => exact .inr hmem
  · rintro ⟨a, hmem, htouches⟩
    have hchain : ∃ c, a ∈ s.addresses c := by
      rcases List.mem_append.1 hmem with h | h
      · exact ⟨.receive, h⟩
      · exact ⟨.change, h⟩
    obtain ⟨c, hmem⟩ := hchain
    obtain ⟨i, ha⟩ := List.mem_iff_getElem?.1 hmem
    exact ⟨c, i, a, ha, seen_of_touchedAt hgap (hd c) ha hlo hhi ⟨tx, htx, htouches⟩, htouches⟩

end Search
end WatchWallet
