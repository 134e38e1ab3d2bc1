import WatchWallet.Proofs.Keychain.Marking
import WatchWallet.Proofs.Window.Following

/-!
# Window — Coverage

What a run has found, and what it is still to find, when the explorer is honest.  Everything it holds
is found by the search (`Run.Exact`); what the search sees is held already, or some task that is out
awaits it (`Run.Covers`); and a complete height has nothing left in its bucket (`Run.Drained`).  Every
step keeps the three.
-/

namespace WatchWallet

/-- The height whose block is about to be handed over. -/
def Stage.storing? : Stage → Option Nat
  | storing _ k => some k
  | waiting | reporting _ _ | settling _ _ => none

namespace Run

variable {s : Search} {p : Plan} {replies : Replies} {page lo hi : Nat} {r r' : Run}

/-- The transaction waits in the bucket of a height, or its block was handed over. -/
def Holds (r : Run) (x : Nat) (tx : Transaction) : Prop :=
  tx ∈ r.scan.buckets.get x ∨ ∃ b ∈ r.stored, b.height = x ∧ tx ∈ b.transactions

/-- What touches an address of a chain at a height is held, and all that it pays in this chain is
marked. -/
def Settled (s : Search) (r : Run) (c : Chain) (a : String) (x : Nat) : Prop :=
  ∀ tx ∈ s.blockchain.mined x, tx.touches [a] = true → r.Holds x tx ∧
    ∀ {j b}, (s.addresses c)[j]? = some b → b ∈ tx.paidAddresses → j < (r.scan.chains.get c).used

/-- Only the search finds what a run holds, each transaction once. -/
structure Exact (s : Search) (hi : Nat) (r : Run) : Prop where
  fits : ∀ t ∈ r.out, s.Fits t
  found : ∀ {x tx}, r.Holds x tx → s.lo ≤ x ∧ x ≤ hi ∧ s.Found x tx
  once : ∀ x, ((r.scan.buckets.get x).map (·.hash)).Nodup
  block : ∀ b ∈ r.stored, b.transactions ≠ [] ∧ (b.transactions.map (·.hash)).Nodup ∧
    s.blockchain.header? b.height = some b.header

/-- What the search sees is settled, or a task that is out awaits it; nothing else is marked. -/
structure Covers (s : Search) (hi : Nat) (r : Run) : Prop where
  addresses : ∀ c, (r.scan.chains.get c).addresses = s.addresses c
  used_le : ∀ c, s.used c ≤ (r.scan.chains.get c).used
  le_of_found : ∀ {c k}, s.used c ≤ k → (∀ {x tx i a}, s.FoundWith c x tx → x ≤ hi →
    (s.addresses c)[i]? = some a → a ∈ tx.paidAddresses → i < k) → (r.scan.chains.get c).used ≤ k
  settled_or_awaited : ∀ {c i a x}, (s.addresses c)[i]? = some a → s.Seen c i x → x ≤ hi →
    r.Settled s c a x ∨ ∃ t ∈ r.out, t.Awaits c i a x

/-- Nothing waits at a height that is complete and handed over, nor where nothing was asked. -/
def Drained (r : Run) : Prop :=
  ∀ x, r.scan.tracker.isComplete x = true ∨ r.launched = [] → r.stage.storing? ≠ some x →
    r.scan.buckets.get x = []

/-! ### What a run holds -/

theorem Holds.of_addAll {txs : List Transaction}
    (hbuckets : r'.scan.buckets = r.scan.buckets.addAll txs) (hstored : r'.stored = r.stored)
    {x : Nat} {tx : Transaction} (h : r.Holds x tx) : r'.Holds x tx := by
  unfold Holds
  rw [hbuckets, hstored]
  exact h.imp_left fun hmem => Buckets.mem_get_addAll_of_mem hmem txs

theorem holds_congr (hbuckets : r'.scan.buckets = r.scan.buckets) (hstored : r'.stored = r.stored)
    {x : Nat} {tx : Transaction} : r'.Holds x tx ↔ r.Holds x tx := by
  rw [Holds, Holds, hbuckets, hstored]

theorem holds_or_mem_of_addAll {txs : List Transaction}
    (hbuckets : r'.scan.buckets = r.scan.buckets.addAll txs) (hstored : r'.stored = r.stored)
    {x : Nat} {tx : Transaction} (h : r'.Holds x tx) :
    r.Holds x tx ∨ tx ∈ txs ∧ tx.height? = some x := by
  unfold Holds at h
  rw [hbuckets, hstored] at h
  rcases h with hmem | hblock
  · exact (Buckets.mem_get_addAll hmem).imp_left .inl
  · exact .inl (.inr hblock)

/-- A block takes along what waited at its height. -/
theorem holds_store_iff (hs : Sound lo hi r) {k : Nat}
    (hbuckets : r'.scan.buckets = r.scan.buckets.remove k)
    (hstored : r'.stored = r.stored ++ (r.scan.blockAt? k).toList) {x : Nat} {tx : Transaction} :
    r'.Holds x tx ↔ r.Holds x tx := by
  unfold Holds
  rw [hbuckets, hstored, Buckets.get_remove]
  rcases hs.blockAt?_cases k with ⟨hempty, hnone⟩ | ⟨block, hblock, hheight, htxs, -⟩
  · rw [hnone, Option.toList_none, List.append_nil]
    by_cases he : x = k
    · subst he
      rw [if_pos rfl, hempty]
    · rw [if_neg he]
  · rw [hblock, Option.toList_some]
    simp only [List.mem_append, List.mem_singleton, or_and_right, exists_or, exists_eq_left]
    rw [hheight, htxs]
    by_cases he : x = k
    · subst he
      simp [or_comm]
    · simp [he, show k ≠ x from fun e => he e.symm]

/-! ### Exactness -/

/-- The block of a height is not empty, holds each transaction once, and stands under the header that
the chain has there. -/
theorem Exact.of_blockAt? (he : Exact s hi r) (hs : Sound lo hi r) {k : Nat} {b : FilledBlock}
    (hb : r.scan.blockAt? k = some b) : b.transactions ≠ [] ∧
      (b.transactions.map (·.hash)).Nodup ∧ s.blockchain.header? b.height = some b.header := by
  obtain ⟨hheight, htxs, tx, htx, hheader⟩ := hs.of_blockAt? hb
  have hfound := (he.found (.inl (htxs ▸ htx))).2.2
  refine ⟨List.ne_nil_of_mem htx, by rw [htxs]; exact he.once k, ?_⟩
  rw [hheight]
  exact Blockchain.header?_of_block hfound.1 hheader

theorem Exact.step (hp : p.Serves s) (he : Exact s hi r) (hs : Sound lo hi r)
    (h : Step p (s.blockchain.replies page) r r') : Exact s hi r' := by
  cases h.effect with
  | @answer before after t a f hreply hjudge hout hout' hbuckets _ hstored =>
      have ht : t ∈ r.out := hout ▸ List.mem_append_right _ List.mem_cons_self
      have hfits := he.fits t ht
      have hhonest := hreply t.lo hfits.starts
      refine ⟨fun c hc => ?_, fun hholds => ?_, fun x => ?_, fun b hb => ?_⟩
      · rw [hout', List.mem_append, List.mem_append] at hc
        rcases hc with (hc | hc) | hc
        · exact he.fits c (hout ▸ List.mem_append_left _ hc)
        · exact hfits.of_mem_children hp hhonest hjudge hc
        · exact he.fits c (hout ▸ List.mem_append_right _ (List.mem_cons_of_mem _ hc))
      · rcases holds_or_mem_of_addAll hbuckets hstored hholds with hold | ⟨hmem, hx⟩
        · exact he.found hold
        · rw [← (hs.out_within t ht).2.2]
          obtain ⟨hlo, hhi, hfound⟩ := hfits.found_of_mem_accepted hhonest hjudge hmem hx
          exact ⟨hlo, hhi, hfound.found⟩
      · rw [hbuckets]
        exact Buckets.nodup_get_addAll (he.once x) _
      · exact he.block b (hstored ▸ hb)
  | @store k hout hbuckets _ hstored =>
      refine ⟨hout ▸ he.fits, fun hholds => ?_, fun x => ?_, fun b hb => ?_⟩
      · exact he.found ((holds_store_iff hs hbuckets hstored).1 hholds)
      · rw [hbuckets, Buckets.get_remove]
        split
        · exact .nil
        · exact he.once x
      · rw [hstored, List.mem_append, Option.mem_toList] at hb
        exact hb.elim (he.block b) (he.of_blockAt? hs)
  | none hout hbuckets _ hstored =>
      refine ⟨hout ▸ he.fits, fun hholds => he.found ?_, hbuckets ▸ he.once, hstored ▸ he.block⟩
      exact (holds_congr hbuckets hstored).1 hholds

/-! ### Coverage -/

theorem Settled.mono {c : Chain} {x : Nat} {a : String} (h : r.Settled s c a x)
    (hholds : ∀ {tx}, r.Holds x tx → r'.Holds x tx)
    (hused : (r.scan.chains.get c).used ≤ (r'.scan.chains.get c).used) : r'.Settled s c a x :=
  fun tx htx htouches => ⟨hholds (h tx htx htouches).1,
    fun hb hpaid => Nat.lt_of_lt_of_le ((h tx htx htouches).2 hb hpaid) hused⟩

/-- What a task marks is paid by what the search finds with the chain of the task. -/
theorem Covers.le_of_found_markAll (hc : Covers s hi r) {t : Task} {a : Answer} {f : Finding}
    (hfits : s.Fits t) (hhi : t.hi = hi)
    (ha : s.blockchain.Answers page t.batch.addresses t.lo a) (hjudge : t.judge a = .ok f) {k : Nat}
    (hk : s.used t.chain ≤ k) (hall : ∀ {x tx i b}, s.FoundWith t.chain x tx → x ≤ hi →
      (s.addresses t.chain)[i]? = some b → b ∈ tx.paidAddresses → i < k) :
    ((r.scan.chains.get t.chain).markAll ((t.accepted f a).flatMap (·.paidAddresses))).used ≤ k := by
  refine Keychain.used_markAll_le (hc.le_of_found hk hall) fun {b i} hmem hb => ?_
  obtain ⟨tx, htx, hpaid⟩ := List.mem_flatMap.1 hmem
  obtain ⟨-, x, hx, -, -⟩ := Task.height?_of_mem_accepted hjudge htx
  obtain ⟨-, hle, hfound⟩ := hfits.found_of_mem_accepted ha hjudge htx hx
  rw [hc.addresses] at hb
  exact hall hfound (hhi ▸ hle) hb hpaid

/-- What touches an address is settled when it is taken in and all that it pays is marked. -/
theorem settled_of_addAll (he' : Exact s hi r') {txs : List Transaction}
    (hbuckets : r'.scan.buckets = r.scan.buckets.addAll txs) {c : Chain} {b : String} {x : Nat}
    (hmarked : ∀ {j d}, (s.addresses c)[j]? = some d → d ∈ txs.flatMap (·.paidAddresses) →
      j < (r'.scan.chains.get c).used)
    (hall : ∀ tx ∈ s.blockchain.mined x, tx.touches [b] = true → tx ∈ txs) :
    r'.Settled s c b x := by
  refine fun tx htx htouches => ⟨?_, fun hd hpaid => hmarked hd ?_⟩
  -- the bucket holds the hash, and in a block the hash tells the transaction
  · obtain ⟨y, hy, hhash⟩ := Buckets.exists_hash_mem_get_addAll (b := r.scan.buckets)
      (hall tx htx htouches) (Blockchain.height?_of_mem_mined htx)
    rw [← hbuckets] at hy
    obtain rfl := Blockchain.eq_of_hash_eq (he'.found (.inl hy)).2.2.1 htx hhash
    exact .inl hy
  · exact List.mem_flatMap.2 ⟨tx, hall tx htx htouches, hpaid⟩

theorem Covers.answer (hp : p.Serves s) (hpage : 1 ≤ page) (hc : Covers s hi r)
    (he : Exact s hi r) (he' : Exact s hi r') (hs : Sound lo hi r) {before after : List Task} {t : Task} {a : Answer}
    {f : Finding} (hreply : s.blockchain.replies page t.batch.addresses t.start a)
    (hjudge : t.judge a = .ok f) (hout : r.out = before ++ t :: after)
    (hout' : r'.out = before ++ t.children p f ++ after)
    (hbuckets : r'.scan.buckets = r.scan.buckets.addAll (t.accepted f a))
    (hchains : r'.scan.chains = r.scan.chains.update t.chain
      (·.markAll ((t.accepted f a).flatMap (·.paidAddresses))))
    (hstored : r'.stored = r.stored) : Covers s hi r' := by
  have ht : t ∈ r.out := hout ▸ List.mem_append_right _ List.mem_cons_self
  have hfits := he.fits t ht
  have hget : ∀ c, r'.scan.chains.get c = if t.chain = c
      then (r.scan.chains.get c).markAll ((t.accepted f a).flatMap (·.paidAddresses))
      else r.scan.chains.get c := fun c => hchains ▸ Chains.get_update ..
  have hgrows : ∀ c, (r.scan.chains.get c).used ≤ (r'.scan.chains.get c).used := by
    intro c
    rw [hget]
    split
    · exact Keychain.used_le_used_markAll ..
    · exact Nat.le_refl _
  refine ⟨fun c => ?_, fun c => Nat.le_trans (hc.used_le c) (hgrows c), fun {c k} hk hall => ?_,
    fun {c i b x} hb hseen hhi => ?_⟩
  · rw [hget]
    split
    · rw [Keychain.addresses_markAll, hc.addresses]
    · exact hc.addresses c
  · rw [hget]
    split
    · rename_i he
      subst he
      exact hc.le_of_found_markAll hfits (hs.out_within t ht).2.2 (hreply t.lo hfits.starts) hjudge
        hk hall
    · exact hc.le_of_found hk hall
  rcases hc.settled_or_awaited hb hseen hhi with hsettled | ⟨t', ht', hawaits⟩
  · exact .inl (hsettled.mono (fun h => h.of_addAll hbuckets hstored) (hgrows c))
  rcases eq_or_mem_out hout hout' ht' with rfl | hstays
  · rcases hfits.accepted_or_awaits hp hpage (hreply t'.lo hfits.starts) hjudge hb hseen hawaits
      with haccepted | ⟨c', hc', hawaits'⟩
    · refine .inl (settled_of_addAll he' hbuckets (fun {j d} hd hmem => ?_) haccepted)
      rw [hget, if_pos hawaits.chain]
      exact Keychain.lt_used_markAll (by rw [hc.addresses]; exact hd) hmem
    · refine .inr ⟨c', ?_, hawaits'⟩
      rw [hout']
      exact List.mem_append_left _ (List.mem_append_right _ hc')
  · exact .inr ⟨t', hstays, hawaits⟩

theorem Covers.step (hp : p.Serves s) (hpage : 1 ≤ page) (hc : Covers s hi r) (he : Exact s hi r)
    (hs : Sound lo hi r) (h : Step p (s.blockchain.replies page) r r') : Covers s hi r' := by
  have he' := he.step hp hs h
  cases h.effect with
  | answer hreply hjudge hout hout' hbuckets hchains hstored =>
      exact hc.answer hp hpage he he' hs hreply hjudge hout hout' hbuckets hchains hstored
  | store hout hbuckets hchains hstored =>
      refine ⟨hchains ▸ hc.addresses, hchains ▸ hc.used_le, hchains ▸ hc.le_of_found,
        fun hb hseen hhi => ?_⟩
      rw [hout]
      refine (hc.settled_or_awaited hb hseen hhi).imp_left fun hsettled => ?_
      exact hsettled.mono (holds_store_iff hs hbuckets hstored).2 (by rw [hchains])
  | none hout hbuckets hchains hstored =>
      refine ⟨hchains ▸ hc.addresses, hchains ▸ hc.used_le, hchains ▸ hc.le_of_found,
        fun hb hseen hhi => ?_⟩
      rw [hout]
      refine (hc.settled_or_awaited hb hseen hhi).imp_left fun hsettled => ?_
      exact hsettled.mono (holds_congr hbuckets hstored).2 (by rw [hchains])

/-! ### Complete heights are drained -/

/-- A height that a step completes is about to be handed over. -/
theorem isComplete_of_step (h : Step p replies r r') {x : Nat}
    (hc : r'.scan.tracker.isComplete x = true) :
    r.scan.tracker.isComplete x = true ∨ r'.stage.storing? = some x := by
  refine (h.isComplete_iff.1 hc).imp_right ?_
  rintro ⟨t, -, hstage⟩
  rw [hstage]
  rfl

theorem launched_of_step (h : Step p replies r r') (hnil : r'.launched = []) :
    r.launched = [] := by
  cases h with
  | answer _ _ | report _ _ | complete _ _ | store | settle =>
      rw [launched_concat] at hnil
      exact (List.append_eq_nil_iff.1 hnil).1
  | done _ => exact hnil

theorem Drained.step (hd : Drained r) (hs : Sound lo hi r) (h : Step p replies r r') :
    Drained r' := by
  intro x hx hstoring
  have hx' : r.scan.tracker.isComplete x = true ∨ r.launched = [] :=
    hx.imp (fun hc => (isComplete_of_step h hc).resolve_right hstoring) (launched_of_step h)
  cases h with
  | @answer scan before after t log a f _ hjudge =>
      have ht : t ∈ before ++ t :: after := List.mem_append_right _ List.mem_cons_self
      have hempty := hd x hx' nofun
      refine List.eq_nil_iff_forall_not_mem.2 fun tx htx => ?_
      rcases Buckets.mem_get_addAll htx with hold | ⟨hmem, hheight⟩
      · rw [hempty] at hold
        cases hold
      -- what the task accepts lies at its heights, and it has not reported on them
      · obtain ⟨-, y, hy, hlo, hhi⟩ := Task.height?_of_mem_accepted hjudge hmem
        obtain rfl := Option.some.inj (hheight.symm.trans hy)
        have hcovers : t ∈ unreported ⟨scan, before ++ t :: after, .waiting, log⟩ x :=
          mem_unreported_of_mem_out ht hlo hhi
        rcases hx' with hc | hnil
        · rw [hs.not_isComplete_of_mem hcovers] at hc
          cases hc
        · exact hs.launched_ne_nil hcovers hnil
  | @store scan out t k log =>
      rw [Scan.buckets_storeBlock, Buckets.get_remove]
      split
      · rfl
      · rename_i hne
        exact hd x hx' fun he => hne (Option.some.inj he).symm
  | report _ _ | complete _ _ | settle | done _ => exact hd x hx' nofun

/-- Where no task is out, nothing waits. -/
theorem Drained.get_eq_nil (hd : Drained r) (hs : Sound lo hi r) (hstage : r.stage = .waiting)
    {x : Nat} (hlo : lo ≤ x) (hhi : x ≤ hi) (hnobody : r.unreported x = []) :
    r.scan.buckets.get x = [] := by
  have hnotstoring : r.stage.storing? ≠ some x := by simp [hstage, Stage.storing?]
  rcases hs.height x hlo hhi with ⟨-, hnone⟩ | ⟨hc, -⟩
  · exact hd x (.inr (hnone hnobody)) hnotstoring
  · exact hd x (.inl hc) hnotstoring

end Run
end WatchWallet
