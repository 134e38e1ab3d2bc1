import WatchWallet.Proofs.Account.Refresh

/-!
# Account — Repeated refreshes

Refreshes one after the other, from a pool that stays as it is.  A refresh asks for what the account
watched before it, and then marks what it has found, so the account may watch more after it than it has
asked for.  It is up to date when it holds all that it awaits (`Account.UpToDate`), and a second refresh
changes nothing if and only if the first one left it so (`Refresh.idempotent_iff`).  One that is not up to
date holds more after each refresh, so it is in the end (`Account.upToDate_of_refreshes`).
-/

namespace WatchWallet

namespace Account

variable {a b c : Account} {pool : List Transaction} {tx : Transaction} {n m : Nat}

/-- The account holds every unconfirmed transaction of the pool that touches one of its used addresses or
one in the gap after them. -/
def UpToDate (a : Account) (pool : List Transaction) : Prop :=
  ∀ tx, a.Awaits pool tx → tx ∈ a.pending

/-- An account with more used addresses watches what it watched before. -/
theorem Watches.grow (hconfig : b.config = a.config) (hgrows : a.chains.Grows b.chains)
    (h : a.Watches tx) : b.Watches tx := by
  obtain ⟨c, i, address, hi, hlt, htouches⟩ := h
  obtain ⟨hsame, hle⟩ := hgrows c
  refine ⟨c, i, address, hsame ▸ hi, Nat.lt_of_lt_of_le hlt ?_, htouches⟩
  rw [hconfig]
  exact Nat.add_le_add_right hle _

/-- What an account watches depends on its used counts. -/
theorem watches_iff_of_used (hconfig : b.config = a.config)
    (haddresses : ∀ c, (b.chains.get c).addresses = (a.chains.get c).addresses)
    (hused : ∀ c, (b.chains.get c).used = (a.chains.get c).used) : b.Watches tx ↔ a.Watches tx :=
  ⟨.grow hconfig.symm fun c => ⟨(haddresses c).symm, (hused c).le⟩,
    .grow hconfig fun c => ⟨haddresses c, (hused c).ge⟩⟩

namespace Refreshed

section One

variable (h : a.Refreshed pool n b)

include h

theorem config : b.config = a.config := by rw [h.rest]

theorem grows : a.chains.Grows b.chains := fun c => ⟨h.addresses c, (h.used c).2 (.inl rfl)⟩

/-- What was awaited before a refresh is awaited after it. -/
theorem awaits (htx : a.Awaits pool tx) : b.Awaits pool tx :=
  ⟨htx.1, htx.2.1, htx.2.2.grow h.config h.grows⟩

/-- After a refresh that did not move the used counts the account is up to date. -/
theorem upToDate_of_used (hident : HashesIdentify pool)
    (hused : ∀ c, (b.chains.get c).used = (a.chains.get c).used) : b.UpToDate pool := by
  rintro tx ⟨hpool, hblock, hwatches⟩
  exact (h.mem_pending_iff hident).2
    ⟨hpool, hblock, (watches_iff_of_used h.config h.addresses hused).1 hwatches⟩

/-- An address that is paid by what the account holds is used. -/
theorem lt_used {ch : Chain} {i : Nat} (htx : tx ∈ b.pending) (hpaid : b.PaidAt ch i tx) :
    i < (b.chains.get ch).used := by
  obtain ⟨address, hmem, hi, hmarks⟩ := hpaid
  refine (h.used ch).2 (.inr ⟨tx, htx, i, ⟨address, hmem, h.addresses ch ▸ hi, fun hch => ?_⟩, rfl⟩)
  exact (show b.chains.receive.addresses = _ from h.addresses .receive) ▸ hmarks hch

end One

section Two

variable (h : a.Refreshed pool n b) (h' : b.Refreshed pool m c) (hident : HashesIdentify pool)

include h h'

/-- A refresh that finds nothing new leaves the used counts as they are. -/
theorem used_eq_of_perm (hperm : c.pending.Perm b.pending) (ch : Chain) :
    (c.chains.get ch).used = (b.chains.get ch).used := by
  rcases (h'.used ch).1 with hsame | ⟨tx, htx, i, hpaid, hused⟩
  · exact hsame
  · refine Nat.le_antisymm ?_ (h'.grows ch).2
    rw [hused]
    exact h.lt_used (hperm.mem_iff.1 htx) hpaid

include hident

/-- What is held after a refresh is held after the next one. -/
theorem pending_subset : b.pending ⊆ c.pending := fun _ htx =>
  (h'.mem_pending_iff hident).2 (h.awaits (h.awaited _ htx))

theorem le : n ≤ m := by
  rw [h.count, h'.count]
  exact h.nodup.length_le_of_subset (h.pending_subset h' hident)

/-- A refresh of an account that is up to date finds what is held. -/
theorem perm_of_upToDate (hcurrent : b.UpToDate pool) : c.pending.Perm b.pending := by
  refine (List.perm_ext_iff_of_nodup h'.nodup h.nodup).2 fun tx => ⟨fun htx => ?_, fun htx => ?_⟩
  · exact hcurrent tx (h'.awaited tx htx)
  · exact h.pending_subset h' hident htx

/-- When the next refresh finds no more, the account is up to date. -/
theorem upToDate_of_le (hle : m ≤ n) : b.UpToDate pool := by
  intro tx htx
  have hsub := List.subperm_of_subset h.nodup (h.pending_subset h' hident)
  have hperm := hsub.perm_of_length_le (by rw [← h.count, ← h'.count]; exact hle)
  exact hperm.mem_iff.2 ((h'.mem_pending_iff hident).2 htx)

/-- An account that is up to date stays so. -/
theorem upToDate_of_upToDate (hcurrent : b.UpToDate pool) : c.UpToDate pool :=
  h'.upToDate_of_used hident (h.used_eq_of_perm h' (h.perm_of_upToDate h' hident hcurrent))

end Two
end Refreshed

/-! ### Refreshes until nothing is new -/

/-- Refreshes of an account from a pool, one after the other, with the numbers that they give. -/
inductive Refreshes (pool : List Transaction) (start : Account) : List Nat → Account → Prop where
  | start : Refreshes pool start [] start
  | refresh {ns : List Nat} {n : Nat} {a b : Account} (h : Refreshes pool start ns a)
      (hb : a.Refreshed pool n b) : Refreshes pool start (ns ++ [n]) b

/-- Until it is up to date, an account holds at least one transaction for each refresh. -/
theorem upToDate_or_length_lt {start : Account} {ns : List Nat} (hident : HashesIdentify pool)
    (h : Refreshes pool start ns a) (hb : a.Refreshed pool n b) :
    b.UpToDate pool ∨ ns.length < b.pending.length := by
  induction h generalizing b n with
  | start =>
      -- the first refresh finds something, or it marks nothing and has asked for everything
      cases hpending : b.pending with
      | nil =>
          refine .inl (hb.upToDate_of_used hident fun ch => ?_)
          rcases (hb.used ch).1 with hsame | ⟨tx, htx, -⟩
          · exact hsame
          · rw [hpending] at htx
            cases htx
      | cons tx txs => exact .inr (Nat.succ_pos _)
  | @refresh ns k d a h ha ih =>
      rcases ih ha with hcurrent | hlt
      · exact .inl (ha.upToDate_of_upToDate hb hident hcurrent)
      · -- a refresh that finds no more than the one before shows that this one had found everything
        by_cases hle : n ≤ k
        · exact .inl (ha.upToDate_of_upToDate hb hident (ha.upToDate_of_le hb hident hle))
        · rw [← ha.count] at hlt
          rw [← hb.count, List.length_append, List.length_singleton]
          exact .inr (by omega)

/-- **Refreshing brings an account up to date.**  It takes no more refreshes than the pool has
transactions, and one more. -/
theorem upToDate_of_refreshes {start : Account} {ns : List Nat} (hident : HashesIdentify pool)
    (h : Refreshes pool start ns a) (hlength : pool.length < ns.length) : a.UpToDate pool := by
  cases h with
  | start => cases hlength
  | @refresh ns n d a h ha =>
      rcases upToDate_or_length_lt hident h ha with hcurrent | hlt
      · exact hcurrent
      · have hle : a.pending.length ≤ pool.length :=
          ha.nodup.length_le_of_subset fun tx htx => (ha.awaited tx htx).1
        rw [List.length_append, List.length_singleton] at hlength
        omega

end Account

/-! ### A second refresh -/

namespace Refresh

/-- **When a refresh is idempotent.**  Let an account be refreshed twice from a pool in which hashes identify
the unconfirmed transactions.  The second refresh finds what the first one has found, or more.  It gives the
same number, if and only if it leaves the transactions and the used counts as they are, if and only if the
account was up to date, if and only if the first refresh had not marked its way to anything new. -/
theorem idempotent_iff {r r' : Refresh} {pool : List Transaction} {n m : Nat}
    (hvalid : r.account.config.Valid) (hident : HashesIdentify pool) (hsurveys : r.explorer.Surveys pool)
    (hsurveys' : r'.explorer.Surveys pool) (hnext : r'.account = r.after) (hok : r.outcome = .ok n)
    (hok' : r'.outcome = .ok m) :
    n ≤ m ∧ r.after.pending ⊆ r'.after.pending ∧
      (m = n ↔ r'.after.pending.Perm r.after.pending ∧
        ∀ c, (r'.after.chains.get c).used = (r.after.chains.get c).used) ∧
      (m = n ↔ r.after.UpToDate pool) ∧
      (m = n ↔ ∀ tx, r.after.Awaits pool tx → r.account.Awaits pool tx) := by
  have h := refreshed_of_ok hvalid hsurveys hok
  have hvalid' : r'.account.config.Valid := by rw [hnext, h.config]; exact hvalid
  have h' : r.after.Refreshed pool m r'.after := hnext ▸ refreshed_of_ok hvalid' hsurveys' hok'
  have hcurrent : m = n ↔ r.after.UpToDate pool := by
    refine ⟨fun heq => h.upToDate_of_le h' hident (Nat.le_of_eq heq), fun hcurrent => ?_⟩
    rw [h.count, h'.count, (h.perm_of_upToDate h' hident hcurrent).length_eq]
  refine ⟨h.le h' hident, h.pending_subset h' hident, ⟨fun heq => ?_, fun hsame => ?_⟩, hcurrent, ?_⟩
  · have hperm := h.perm_of_upToDate h' hident (hcurrent.1 heq)
    exact ⟨hperm, h.used_eq_of_perm h' hperm⟩
  · rw [h.count, h'.count, hsame.1.length_eq]
  · rw [hcurrent, Account.UpToDate]
    simp only [h.mem_pending_iff hident]

/-- An account with an address and another one in the gap after it. -/
def gapOfOne : Account :=
  { config := ⟨1, 1, 1, 2, "g"⟩, chains := ⟨.ofList ["a", "b", "c"] 0, .ofList [] 0⟩,
    stable := .memory .empty, unstable := .memory .empty, pending := [], checkpoints := .memory none,
    disk := .empty, journal := [] }

/-- Each of two payments is seen by a refresh of its own: the first one is found and marks the first
address, and only then the second address is asked for.  After this the account is up to date. -/
theorem idempotent_iff_twoPayments :
    let pool := [paying "u" ["a"], paying "v" ["b"]]
    let refresh : Account → Refresh := fun a => ⟨Unit, .ofPool pool [], (), a⟩
    let first := refresh gapOfOne
    let second := refresh first.after
    let third := refresh second.after
    first.outcome = .ok 1 ∧ second.outcome = .ok 2 ∧ third.outcome = .ok 2 ∧
      ¬first.after.UpToDate pool ∧ second.after.UpToDate pool ∧
      third.after.pending.Perm second.after.pending := by
  intro pool refresh first second third
  have hvalid : gapOfOne.config.Valid := ⟨by decide, by decide, by decide⟩
  have hident : HashesIdentify pool := by decide
  have hsurveys : ∀ a, (refresh a).explorer.Surveys pool := fun a => Explorer.surveys_ofPool _ _
  have hfirst : first.outcome = .ok 1 := by decide +kernel
  have hsecond : second.outcome = .ok 2 := by decide +kernel
  have hthird : third.outcome = .ok 2 := by decide +kernel
  have hvalid' : second.account.config.Valid := by
    refine ⟨?_, ?_, ?_⟩ <;> decide +kernel
  obtain ⟨-, -, -, hbehind, -⟩ :=
    idempotent_iff hvalid hident (hsurveys _) (hsurveys _) rfl hfirst hsecond
  obtain ⟨-, -, hsame, hcurrent, -⟩ :=
    idempotent_iff hvalid' hident (hsurveys _) (hsurveys _) rfl hsecond hthird
  refine ⟨hfirst, hsecond, hthird, ?_, hcurrent.1 rfl, (hsame.1 rfl).1⟩
  exact mt hbehind.2 (by decide)

end Refresh
end WatchWallet
