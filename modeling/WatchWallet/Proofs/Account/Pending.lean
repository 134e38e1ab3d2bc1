import Mathlib.Data.List.Induction
import Mathlib.Data.List.Nodup
import WatchWallet.Proofs.Account.Action
import WatchWallet.Proofs.Blockchain.Basic
import WatchWallet.Proofs.Keychain.Batches
import WatchWallet.Proofs.Schedule

/-!
# Account — Unconfirmed transactions

The steps of a refresh.  Of the transactions that it hears of, one of each hash is kept
(`Pending.nodup_select`).  It asks for what the account watches (`Pending.touches_addresses_iff`), and
cutting the addresses into parts loses none of them (`Pending.touches_parts_iff`).  The requests end with
an answer to every part or at the first failure (`Pending.ends_service`).
-/

namespace WatchWallet

namespace Pending

/-! ### One of each hash -/

theorem firstByHash_concat (txs : List Transaction) (tx : Transaction) :
    firstByHash (txs ++ [tx]) =
      if (firstByHash txs).any (·.hash == tx.hash) then firstByHash txs
      else firstByHash txs ++ [tx] :=
  List.foldl_append

theorem mem_of_mem_firstByHash {txs : List Transaction} {tx : Transaction}
    (h : tx ∈ firstByHash txs) : tx ∈ txs := by
  induction txs using List.reverseRecOn with
  | nil => exact h
  | append_singleton txs last ih =>
      rw [firstByHash_concat] at h
      split at h
      · exact List.mem_append_left _ (ih h)
      · exact (List.mem_append.1 h).elim (fun h => List.mem_append_left _ (ih h))
          (List.mem_append_right _)

theorem hash_mem_firstByHash {txs : List Transaction} {tx : Transaction} (h : tx ∈ txs) :
    tx.hash ∈ (firstByHash txs).map (·.hash) := by
  induction txs using List.reverseRecOn with
  | nil => cases h
  | append_singleton txs last ih =>
      rw [firstByHash_concat]
      split
      · rename_i hkept
        rcases List.mem_append.1 h with h | h
        · exact ih h
        · obtain rfl := List.mem_singleton.1 h
          obtain ⟨kept, hmem, hhash⟩ := List.any_eq_true.1 hkept
          exact List.mem_map.2 ⟨kept, hmem, eq_of_beq hhash⟩
      · rw [List.map_append]
        rcases List.mem_append.1 h with h | h
        · exact List.mem_append_left _ (ih h)
        · obtain rfl := List.mem_singleton.1 h
          exact List.mem_append_right _ List.mem_cons_self

theorem nodup_firstByHash (txs : List Transaction) : ((firstByHash txs).map (·.hash)).Nodup := by
  induction txs using List.reverseRecOn with
  | nil => exact List.nodup_nil
  | append_singleton txs last ih =>
      rw [firstByHash_concat]
      split
      · exact ih
      · rename_i hnew
        rw [List.map_append]
        refine List.nodup_append.2 ⟨ih, List.nodup_singleton _, ?_⟩
        rintro hash hmem _ hlast rfl
        obtain ⟨kept, hkept, rfl⟩ := List.mem_map.1 hmem
        exact hnew (List.any_eq_true.2 ⟨kept, hkept, beq_iff_eq.2 (List.mem_singleton.1 hlast)⟩)

variable {txs : List Transaction} {tx : Transaction}

theorem nodup_select (txs : List Transaction) : ((select txs).map (·.hash)).Nodup :=
  nodup_firstByHash _

theorem mem_of_mem_select (h : tx ∈ select txs) : tx ∈ txs ∧ tx.block = none := by
  obtain ⟨hmem, hblock⟩ := List.mem_filter.1 (mem_of_mem_firstByHash h)
  exact ⟨hmem, Option.isNone_iff_eq_none.1 hblock⟩

theorem hash_mem_select (h : tx ∈ txs) (hblock : tx.block = none) :
    tx.hash ∈ (select txs).map (·.hash) :=
  hash_mem_firstByHash (List.mem_filter.2 ⟨h, Option.isNone_iff_eq_none.2 hblock⟩)

end Pending

/-! ### What is asked for -/

/-- The transaction touches a used address of the account, or one in the gap after them. -/
def Account.Watches (a : Account) (tx : Transaction) : Prop :=
  ∃ c i address, (a.chains.get c).addresses[i]? = some address ∧
    i < (a.chains.get c).used + a.config.gapSize.toNat ∧ tx.touches [address] = true

namespace Pending

theorem mem_addresses {a : Account} {address : String} : address ∈ addresses a ↔
    ∃ c i, (a.chains.get c).addresses[i]? = some address ∧
      i < (a.chains.get c).used + a.config.gapSize.toNat := by
  simp only [addresses, List.mem_flatMap, Keychain.range, Batch.mem_slice, Nat.zero_add]
  constructor
  · rintro ⟨c, -, i, hi, -, hlt⟩
    exact ⟨c, i, hi, hlt⟩
  · rintro ⟨c, i, hi, hlt⟩
    refine ⟨c, ?_, i, hi, Nat.zero_le _, hlt⟩
    cases c with
    | receive => exact List.mem_cons_self
    | change => exact List.mem_cons_of_mem _ List.mem_cons_self

/-- What touches the addresses that are asked for is what the account watches. -/
theorem touches_addresses_iff {a : Account} {tx : Transaction} :
    tx.touches (addresses a) = true ↔ a.Watches tx := by
  rw [Transaction.touches_iff]
  constructor
  · rintro ⟨address, hmem, htouches⟩
    obtain ⟨c, i, hi, hlt⟩ := mem_addresses.1 hmem
    exact ⟨c, i, address, hi, hlt, htouches⟩
  · rintro ⟨c, i, address, hi, hlt, htouches⟩
    exact ⟨address, mem_addresses.2 ⟨c, i, hi, hlt⟩, htouches⟩

/-! ### Parts -/

section Parts

variable {size : Nat} {as : List String}

theorem mem_parts (hsize : 0 < size) {part : Nat × List String} : part ∈ parts size as ↔
    part.1 * size < as.length ∧ part.2 = (as.drop (part.1 * size)).take size := by
  simp only [parts, List.mem_map, List.mem_range, Batch.lt_count_iff hsize]
  constructor
  · rintro ⟨i, hi, rfl⟩
    exact ⟨hi, rfl⟩
  · rintro ⟨hi, hpart⟩
    exact ⟨part.1, hi, Prod.ext rfl hpart.symm⟩

/-- No two parts have the same number. -/
theorem eq_of_mem_parts (hsize : 0 < size) {part part' : Nat × List String}
    (h : part ∈ parts size as) (h' : part' ∈ parts size as) (hnumber : part.1 = part'.1) :
    part = part' := by
  refine Prod.ext hnumber ?_
  rw [((mem_parts hsize).1 h).2, ((mem_parts hsize).1 h').2, hnumber]

/-- The parts hold the addresses, and no others. -/
theorem exists_mem_parts (hsize : 0 < size) {address : String} :
    (∃ part ∈ parts size as, address ∈ part.2) ↔ address ∈ as := by
  constructor
  · rintro ⟨part, hpart, hmem⟩
    rw [((mem_parts hsize).1 hpart).2] at hmem
    exact List.mem_of_mem_drop (List.mem_of_mem_take hmem)
  · intro hmem
    obtain ⟨i, hi⟩ := List.mem_iff_getElem?.1 hmem
    have hle : i / size * size ≤ i := Nat.div_mul_le_self i size
    have hlt : i / size * size < as.length :=
      Nat.lt_of_le_of_lt hle (List.getElem?_eq_some_iff.1 hi).1
    refine ⟨(i / size, (as.drop (i / size * size)).take size), (mem_parts hsize).2 ⟨hlt, rfl⟩, ?_⟩
    exact Batch.mem_slice.2 ⟨i, hi, hle, Nat.lt_div_mul_add hsize⟩

/-- Cutting the addresses into parts loses nothing. -/
theorem touches_parts_iff (hsize : 0 < size) {tx : Transaction} :
    (∃ part ∈ parts size as, tx.touches part.2 = true) ↔ tx.touches as = true := by
  rw [Transaction.touches_iff]
  constructor
  · rintro ⟨part, hpart, htouches⟩
    obtain ⟨address, hmem, htouch⟩ := Transaction.touches_iff.1 htouches
    exact ⟨address, (exists_mem_parts hsize).1 ⟨part, hpart, hmem⟩, htouch⟩
  · rintro ⟨address, hmem, htouch⟩
    obtain ⟨part, hpart, hmem⟩ := (exists_mem_parts hsize).2 hmem
    exact ⟨part, hpart, Transaction.touches_iff.2 ⟨address, hmem, htouch⟩⟩

end Parts
end Pending

/-! ### Answers -/

variable {σ : Type}

/-- The explorer has a pool of transactions, some of which may be confirmed.  What it answers about
addresses is what touches one of them, in any order; it may fail at any time. -/
def Explorer.Surveys (explorer : Explorer σ) (pool : List Transaction) : Prop :=
  ∀ {addresses s txs s'}, explorer.pending addresses s = (.ok txs, s') →
    ∀ tx, tx ∈ txs ↔ tx ∈ pool ∧ tx.touches addresses = true

/-- An explorer with a pool that takes no time and fails whenever it is asked about certain addresses. -/
def Explorer.ofPool (pool : List Transaction) (lost : List String) : Explorer Unit where
  delay s := (0, s)
  transactions _ _ s := (.ok ⟨[], false⟩, s)
  tip s := (.error (.blockNotFound "tip"), s)
  block _ s := (.ok none, s)
  pending addresses s :=
    (if addresses.any lost.contains then .error (.transport "connection reset")
      else .ok (pool.filter (·.touches addresses)), s)

theorem Explorer.surveys_ofPool (pool : List Transaction) (lost : List String) :
    (Explorer.ofPool pool lost).Surveys pool := by
  intro addresses s txs s' h tx
  simp only [ofPool] at h
  split at h
  · cases h
  · cases h
    exact List.mem_filter

/-- A request about unconfirmed transactions with the reply to it. -/
structure Inquiry where
  addresses : List String
  reply : Except ExplorerError (List Transaction)

/-- The same explorer, with a record of the requests about unconfirmed transactions. -/
def Explorer.noted (explorer : Explorer σ) : Explorer (σ × List Inquiry) where
  delay s := ((explorer.delay s.1).1, (explorer.delay s.1).2, s.2)
  transactions addresses start s :=
    ((explorer.transactions addresses start s.1).1, (explorer.transactions addresses start s.1).2, s.2)
  tip s := ((explorer.tip s.1).1, (explorer.tip s.1).2, s.2)
  block h s := ((explorer.block h s.1).1, (explorer.block h s.1).2, s.2)
  pending addresses s :=
    let said := explorer.pending addresses s.1
    (said.1, said.2, s.2 ++ [⟨addresses, said.1⟩])

namespace Pending

/-- Every part is left, or its number stands for what touches it in the pool. -/
structure Heard (pool : List Transaction) (parts left : List (Nat × List String))
    (answers : List (Nat × List Transaction)) : Prop where
  left_subset : ∀ part ∈ left, part ∈ parts
  answered : ∀ part ∈ parts, part ∈ left ∨ ∃ txs, answers.lookup part.1 = some txs ∧
    ∀ tx, tx ∈ txs ↔ tx ∈ pool ∧ tx.touches part.2 = true

namespace Heard

variable {pool txs : List Transaction} {all before after : List (Nat × List String)}
  {part : Nat × List String} {answers : List (Nat × List Transaction)}

/-- One more part is answered. -/
theorem step (h : Heard pool all (before ++ part :: after) answers)
    (hnumbers : ∀ {p q}, p ∈ all → q ∈ all → p.1 = q.1 → p = q)
    (htxs : ∀ tx, tx ∈ txs ↔ tx ∈ pool ∧ tx.touches part.2 = true) :
    Heard pool all (before ++ [] ++ after) ((part.1, txs) :: answers) := by
  have hpart : part ∈ all := h.left_subset part (List.mem_append_right _ List.mem_cons_self)
  refine ⟨fun q hq => h.left_subset q ?_, fun q hq => ?_⟩
  · rw [List.append_nil] at hq
    exact (List.mem_append.1 hq).elim (List.mem_append_left _)
      fun hq => List.mem_append_right _ (List.mem_cons_of_mem _ hq)
  · -- the new answer stands for its own part only, since no other one has its number
    rw [List.lookup_cons]
    cases hsame : q.1 == part.1 with
    | true =>
        obtain rfl := hnumbers hq hpart (eq_of_beq hsame)
        exact .inr ⟨txs, rfl, htxs⟩
    | false =>
        rcases h.answered q hq with hleft | hanswered
        · refine .inl ?_
          rw [List.append_nil]
          rcases List.mem_append.1 hleft with hq | hq
          · exact List.mem_append_left _ hq
          · rcases List.mem_cons.1 hq with rfl | hq
            · rw [beq_self_eq_true] at hsame
              cases hsame
            · exact List.mem_append_right _ hq
        · exact .inr hanswered

/-- When nothing is left, the answers hold what touches one of the parts. -/
theorem mem_inOrder (h : Heard pool all [] answers) {tx : Transaction} :
    tx ∈ inOrder all answers ↔ tx ∈ pool ∧ ∃ part ∈ all, tx.touches part.2 = true := by
  have hpart : ∀ part ∈ all, (tx ∈ (answers.lookup part.1).getD [] ↔
      tx ∈ pool ∧ tx.touches part.2 = true) := by
    intro part hpart
    rcases h.answered part hpart with hleft | ⟨txs, hlookup, htxs⟩
    · cases hleft
    · rw [hlookup]
      exact htxs tx
  rw [inOrder, List.mem_flatMap]
  constructor
  · rintro ⟨part, hmem, htx⟩
    obtain ⟨hpool, htouches⟩ := (hpart part hmem).1 htx
    exact ⟨hpool, part, hmem, htouches⟩
  · rintro ⟨hpool, part, hmem, htouches⟩
    exact ⟨part, hmem, (hpart part hmem).2 ⟨hpool, htouches⟩⟩

end Heard

/-- **How the requests end**: until the first failure, every answer is what the pool has. -/
theorem ends_service {explorer : Explorer σ} {pool : List Transaction}
    (hsurveys : explorer.Surveys pool) {size : Nat} (hsize : 0 < size) (as : List String) (s : σ) :
    Schedule.Ends (service explorer.noted)
      (fun left answers s => Heard pool (parts size as) left answers ∧
        ∀ x ∈ s.2, ∃ txs, x.reply = .ok txs)
      (Schedule.runAll (service explorer.noted) (parts size as) [] (s, [])) := by
  refine Schedule.run_ends _ (fun h => h) ?_ _ _ _ ?_
  · rintro before part after answers s answers' left s' ⟨hheard, hreplies⟩ hanswer
    simp only [service, Explorer.noted] at hanswer
    rcases hasked : explorer.pending part.2 s.1 with ⟨e | txs, s₁⟩ <;> rw [hasked] at hanswer
    · cases hanswer
    · cases hanswer
      refine ⟨hheard.step (fun hp hq => eq_of_mem_parts hsize hp hq) (hsurveys hasked), ?_⟩
      intro x hx
      rcases List.mem_append.1 hx with hx | hx
      · exact hreplies x hx
      · exact ⟨txs, congrArg Inquiry.reply (List.mem_singleton.1 hx)⟩
  · refine ⟨⟨fun part hpart => ?_, fun part hpart => .inl ?_⟩,
      fun x hx => absurd hx List.not_mem_nil⟩
    all_goals simpa [Schedule.fresh, Function.comp_def] using hpart

end Pending

/-- What the other side remembers besides makes no difference to what is heard. -/
theorem Action.perform_askPending_sim {σ' : Type} (explorer : Explorer σ) (explorer' : Explorer σ')
    (π : σ' → σ) (hdelay : ∀ s, Prod.map id π (explorer'.delay s) = explorer.delay (π s))
    (hpending : ∀ as s, Prod.map id π (explorer'.pending as s) = explorer.pending as (π s))
    (parts : List (Nat × List String)) (a : Account) (s : σ') :
    Prod.map id (Prod.map id π) ((askPending explorer' parts).perform a s) =
      (askPending explorer parts).perform a (π s) := by
  have hanswer : ∀ t r s, Prod.map id π ((Pending.service explorer').answer t r s) =
      (Pending.service explorer).answer t r (π s) := by
    intro t r s
    simp only [Pending.service, ← hpending]
    rcases explorer'.pending t.2 s with ⟨e | txs, s'⟩ <;> rfl
  have hran := Schedule.run_sim (Pending.service explorer) (Pending.service explorer') π hdelay hanswer
    (parts.map (Schedule.fresh 0)) [] s
  rw [perform_askPending, perform_askPending, Schedule.runAll, Schedule.runAll, ← hran]
  rfl

end WatchWallet
