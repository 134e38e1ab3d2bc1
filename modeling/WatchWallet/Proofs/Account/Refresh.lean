import Mathlib.Order.Bounds.Basic
import WatchWallet.Proofs.Account.Course
import WatchWallet.Proofs.Account.Pending

/-!
# Account — Refresh

A refresh of the unconfirmed transactions of an account (`Refresh`).  It asks a pool of transactions for
what the account watches (`Account.Awaits`).  Either a request fails, and the account stays as it is, or the
account holds what it awaits, and its used counts reach as far as this pays (`Account.Refreshed`).  How the
requests are cut makes no difference (`Refresh.exact_and_atomic`).
-/

namespace WatchWallet

/-! ### What a refresh leaves -/

namespace Account

/-- The transaction is an unconfirmed one of the pool, and the account watches it. -/
def Awaits (a : Account) (pool : List Transaction) (tx : Transaction) : Prop :=
  tx ∈ pool ∧ tx.block = none ∧ a.Watches tx

/-- The transaction pays the address of a chain at an index.  An address of both chains counts for the
receiving one. -/
def PaidAt (a : Account) (c : Chain) (i : Nat) (tx : Transaction) : Prop :=
  ∃ address ∈ tx.paidAddresses, (a.chains.get c).addresses[i]? = some address ∧
    (c = .change → address ∉ a.chains.receive.addresses)

/-- The account after a refresh that found these transactions. -/
def withPending (a : Account) (pending : List Transaction) : Account :=
  { a with
    pending
    chains := (pending.flatMap (·.paidAddresses)).foldl Chains.mark a.chains
    journal := a.journal ++ [.event (.pendingUpdated pending.length)] }

/-- What an account has become after a refresh from a pool, which gave a number. -/
structure Refreshed (a : Account) (pool : List Transaction) (n : Nat) (b : Account) : Prop where
  nodup_hashes : (b.pending.map (·.hash)).Nodup
  awaited : ∀ tx ∈ b.pending, a.Awaits pool tx
  complete : ∀ tx, a.Awaits pool tx → tx.hash ∈ b.pending.map (·.hash)
  count : n = b.pending.length
  /-- Each used count is the old one, or it ends at the last address that is paid. -/
  used : ∀ c, IsGreatest {m | m = (a.chains.get c).used ∨
    ∃ tx ∈ b.pending, ∃ i, a.PaidAt c i tx ∧ m = i + 1} (b.chains.get c).used
  addresses : ∀ c, (b.chains.get c).addresses = (a.chains.get c).addresses
  rest : b = { a with
    pending := b.pending
    chains := b.chains
    journal := a.journal ++ [.event (.pendingUpdated n)] }

end Account

/-- No two unconfirmed transactions of the pool have the same hash. -/
def HashesIdentify (pool : List Transaction) : Prop :=
  ∀ tx ∈ pool, ∀ tx' ∈ pool, tx.block = none → tx'.block = none → tx.hash = tx'.hash → tx = tx'

instance (pool : List Transaction) : Decidable (HashesIdentify pool) :=
  inferInstanceAs (Decidable (∀ tx ∈ pool, ∀ tx' ∈ pool, _ → _ → _ → _))

namespace Account

variable {a a' b b' : Account} {pool txs : List Transaction} {n n' : Nat}

/-- Taking up what the pool has for the account refreshes it. -/
theorem refreshed_withPending (h : ∀ tx, tx ∈ txs ↔ tx ∈ pool ∧ a.Watches tx) :
    a.Refreshed pool (Pending.select txs).length (a.withPending (Pending.select txs)) where
  nodup_hashes := Pending.nodup_select txs
  awaited tx htx := by
    obtain ⟨hmem, hblock⟩ := Pending.mem_of_mem_select htx
    exact ⟨((h tx).1 hmem).1, hblock, ((h tx).1 hmem).2⟩
  complete tx htx := Pending.hash_mem_select ((h tx).2 ⟨htx.1, htx.2.2⟩) htx.2.1
  count := rfl
  used c := by
    have hgreatest := (a.chains.get c).isGreatest_used_markAll
      (((Pending.select txs).flatMap (·.paidAddresses)).filter (a.chains.marks c))
    rw [← Chains.get_markAll] at hgreatest
    refine ⟨hgreatest.1.imp_right ?_, fun m hm => hgreatest.2 (hm.imp_right ?_)⟩
    · rintro ⟨address, hmem, i, hi, hm⟩
      obtain ⟨hpaid, hmarks⟩ := List.mem_filter.1 hmem
      obtain ⟨tx, htx, hpaid⟩ := List.mem_flatMap.1 hpaid
      exact ⟨tx, htx, i, ⟨address, hpaid, hi, Chains.marks_iff.1 hmarks⟩, hm⟩
    · rintro ⟨tx, htx, i, ⟨address, hpaid, hi, hmarks⟩, hm⟩
      exact ⟨address, List.mem_filter.2 ⟨List.mem_flatMap.2 ⟨tx, htx, hpaid⟩, Chains.marks_iff.2 hmarks⟩,
        i, hi, hm⟩
  addresses c := (Chains.grows_markAll a.chains _ c).1
  rest := rfl

namespace Refreshed

theorem nodup (h : a.Refreshed pool n b) : b.pending.Nodup :=
  .of_map _ h.nodup_hashes

/-- When hashes identify transactions, exactly what is awaited is held. -/
theorem mem_pending_iff (h : a.Refreshed pool n b) (hident : HashesIdentify pool) {tx : Transaction} :
    tx ∈ b.pending ↔ a.Awaits pool tx := by
  refine ⟨h.awaited tx, fun htx => ?_⟩
  obtain ⟨kept, hkept, hhash⟩ := List.mem_map.1 (h.complete tx htx)
  obtain ⟨hpool, hblock, -⟩ := h.awaited kept hkept
  rwa [← hident kept hpool tx htx.1 hblock htx.2.1 hhash]

theorem mem_hashes_iff (h : a.Refreshed pool n b) {hash : String} :
    hash ∈ b.pending.map (·.hash) ↔ ∃ tx, a.Awaits pool tx ∧ tx.hash = hash := by
  constructor
  · intro hmem
    obtain ⟨tx, htx, hhash⟩ := List.mem_map.1 hmem
    exact ⟨tx, h.awaited tx htx, hhash⟩
  · rintro ⟨tx, htx, rfl⟩
    exact h.complete tx htx

/-- Accounts that await the same come to hold the same hashes. -/
theorem perm_hashes (h : a.Refreshed pool n b) (h' : a'.Refreshed pool n' b')
    (hawaits : ∀ tx, a'.Awaits pool tx ↔ a.Awaits pool tx) :
    (b'.pending.map (·.hash)).Perm (b.pending.map (·.hash)) := by
  refine (List.perm_ext_iff_of_nodup h'.nodup_hashes h.nodup_hashes).2 fun hash => ?_
  rw [h'.mem_hashes_iff, h.mem_hashes_iff]
  simp only [hawaits]

/-- Accounts that await the same come to hold the same transactions, if hashes identify them. -/
theorem perm_pending (h : a.Refreshed pool n b) (h' : a'.Refreshed pool n' b')
    (hident : HashesIdentify pool) (hawaits : ∀ tx, a'.Awaits pool tx ↔ a.Awaits pool tx) :
    b'.pending.Perm b.pending := by
  refine (List.perm_ext_iff_of_nodup h'.nodup h.nodup).2 fun tx => ?_
  rw [h'.mem_pending_iff hident, h.mem_pending_iff hident, hawaits]

/-- The used counts depend on which transactions are held, not on their order. -/
theorem used_eq (h : a.Refreshed pool n b) (h' : a'.Refreshed pool n' b')
    (hchains : a'.chains = a.chains) (hperm : b'.pending.Perm b.pending) (c : Chain) :
    (b'.chains.get c).used = (b.chains.get c).used := by
  refine (h'.used c).unique ?_
  simpa only [PaidAt, hchains, hperm.mem_iff] using h.used c

end Refreshed
end Account

/-! ### A refresh -/

namespace Action

variable {σ : Type}

/-- When the transactions are known, the account takes them up. -/
theorem perform_refreshPending (explorer : Explorer σ) (a : Account) (s : σ) :
    (refreshPending explorer).perform a s =
      match (askPending explorer
          (Pending.parts a.config.batchSize.toNat (Pending.addresses a))).perform a s with
      | (.ok txs, a, s) => (.ok (Pending.select txs).length, a.withPending (Pending.select txs), s)
      | (.error e, a, s) => (.error e, a, s) := by
  show (askPending explorer _ >>= fun txs => _ : Action σ Nat).perform a s = _
  rw [perform_bind]
  rcases (askPending explorer _).perform a s with ⟨e | txs, a', s'⟩
  · rfl
  · rfl

end Action

/-- A refresh of the unconfirmed transactions of an account, with an explorer in some state. -/
structure Refresh where
  σ : Type
  explorer : Explorer σ
  state : σ
  account : Account

namespace Refresh

variable (r : Refresh)

/-- What the refresh comes to, with the account and the explorer after it. -/
def performed : Except Stop Nat × Account × r.σ :=
  (Action.refreshPending r.explorer).perform r.account r.state

/-- What the refresh comes to. -/
def outcome : Except Stop Nat := r.performed.1

/-- The account after the refresh. -/
def after : Account := r.performed.2.1

/-- The same refresh, with a record of its requests. -/
def noted : Refresh := ⟨r.σ × List Inquiry, r.explorer.noted, (r.state, []), r.account⟩

/-- The requests of the refresh with the replies to them. -/
def inquiries : List Inquiry := r.noted.performed.2.2.2

/-- The record changes nothing else. -/
theorem performed_noted : Prod.map id (Prod.map id Prod.fst) r.noted.performed = r.performed := by
  have hasked := Action.perform_askPending_sim r.explorer r.explorer.noted Prod.fst (fun _ => rfl)
    (fun _ _ => rfl)
    (Pending.parts r.account.config.batchSize.toNat (Pending.addresses r.account)) r.account (r.state, [])
  rw [performed, performed, Action.perform_refreshPending, Action.perform_refreshPending, ← hasked]
  simp only [noted]
  rcases (Action.askPending r.explorer.noted _).perform r.account (r.state, []) with ⟨e | txs, a', s'⟩
  · rfl
  · rfl

/-- What a refresh does. -/
inductive Effect (pool : List Transaction) : Prop where
  | failed {x : Inquiry} {failure : ExplorerError} {e : SyncError} (hx : x ∈ r.inquiries)
      (hreply : x.reply = .error failure) (houtcome : r.outcome = .error (.failed e))
      (hafter : r.after = r.account)
  | done {n : Nat} (hreplies : ∀ x ∈ r.inquiries, ∃ txs, x.reply = .ok txs) (houtcome : r.outcome = .ok n)
      (hafter : r.account.Refreshed pool n r.after)

variable {r}

/-- **What a refresh does**: it ends with the first request that fails, or takes up what is awaited. -/
theorem effect {pool : List Transaction} (hvalid : r.account.config.Valid)
    (hsurveys : r.explorer.Surveys pool) : r.Effect pool := by
  -- the refresh is run with its requests and their replies noted, which changes nothing else
  have houtcome : r.outcome = r.noted.outcome := (congrArg (·.1) r.performed_noted).symm
  have hafter : r.after = r.noted.after := (congrArg (·.2.1) r.performed_noted).symm
  have hperformed := Action.perform_refreshPending r.explorer.noted r.account (r.state, [])
  rw [Action.perform_askPending] at hperformed
  have hends := Pending.ends_service hsurveys hvalid.batchSize_pos (Pending.addresses r.account) r.state
  generalize Schedule.runAll _ _ [] (r.state, ([] : List Inquiry)) = done at hends hperformed
  change r.noted.performed = _ at hperformed
  cases hends with
  | done hheard =>
      have hinquiries : r.inquiries = _ := congrArg (·.2.2.2) hperformed
      refine .done (hinquiries ▸ hheard.2) (houtcome.trans (congrArg (·.1) hperformed)) ?_
      rw [hafter, show r.noted.after = _ from congrArg (·.2.1) hperformed]
      refine Account.refreshed_withPending fun tx => ?_
      rw [hheard.1.mem_inOrder, Pending.touches_parts_iff hvalid.batchSize_pos,
        Pending.touches_addresses_iff]
  | @failed left part answers s s' e hheard hmem hfail =>
      have hinquiries : r.inquiries = s'.2 := congrArg (·.2.2.2) hperformed
      simp only [Pending.service, Explorer.noted] at hfail
      rcases hasked : r.explorer.pending part.2 s.1 with ⟨failure | txs, s₁⟩ <;> rw [hasked] at hfail
      · cases hfail
        have hx : ⟨part.2, .error failure⟩ ∈ r.inquiries := by
          rw [hinquiries]
          exact List.mem_append_right _ List.mem_cons_self
        exact .failed hx rfl (houtcome.trans (congrArg (·.1) hperformed))
          (hafter.trans (congrArg (·.2.1) hperformed))
      · cases hfail

/-- A refresh that succeeds takes up what is awaited. -/
theorem refreshed_of_ok {pool : List Transaction} (hvalid : r.account.config.Valid)
    (hsurveys : r.explorer.Surveys pool) {n : Nat} (hok : r.outcome = .ok n) :
    r.account.Refreshed pool n r.after := by
  cases effect hvalid hsurveys with
  | failed _ _ houtcome _ => cases houtcome.symm.trans hok
  | done _ houtcome hafter =>
      obtain rfl := Except.ok.inj (houtcome.symm.trans hok)
      exact hafter

end Refresh

/-! ### Passes -/

namespace Action

variable {σ : Type} {explorer : Explorer σ} {now : Instant} {pending : List Transaction}

/-- Whatever the action comes to, these stay the unconfirmed transactions of the account. -/
abbrev KeepsPending {α : Type} (pending : List Transaction) (x : Action σ α) : Prop :=
  Ensures (·.pending = pending) x (fun _ a => a.pending = pending) fun _ a => a.pending = pending

theorem keepsPending_synchronizeWindow {kind : WindowKind} {start : String} {lo hi : Nat} :
    KeepsPending pending (synchronizeWindow explorer kind start lo hi) := by
  intro a s ha
  rw [perform_synchronizeWindow]
  rcases (a.window kind).synchronize explorer a.config (some start) lo hi s with ⟨e | stats, w, s'⟩
  · exact (a.pending_ofWindow w).trans ha
  · exact (a.pending_ofWindow w).trans ha

theorem keepsPending_loadCheckpoint : KeepsPending pending (loadCheckpoint : Action σ _) := by
  intro a s ha
  rw [perform_loadCheckpoint]
  rcases a.checkpoints.load a.disk with e | saved
  · exact ha
  · exact ha

theorem keepsPending_saveCheckpoint (c : Checkpoint) :
    KeepsPending pending (saveCheckpoint c : Action σ _) := by
  intro a s ha
  rw [perform_saveCheckpoint]
  rcases a.checkpoints.save c a.disk with ⟨e | _, checkpoints, disk⟩
  · exact ha
  · exact ha

theorem keepsPending_clearUnstable : KeepsPending pending (clearUnstable : Action σ _) := by
  intro a s ha
  rw [perform_clearUnstable]
  rcases a.unstable.removeFrom 0 a.disk with ⟨e | _, unstable, disk⟩
  · exact ha
  · exact ha

theorem keepsPending_synchronizeStable {hi : Nat} :
    KeepsPending pending (synchronizeStable explorer now hi) := by
  have hscan : ∀ start lo, KeepsPending pending (scanStable explorer now start lo hi) := fun start lo =>
    keepsPending_synchronizeWindow.bind fun stats => (Ensures.blockHashAt hi).bind fun hash =>
      (keepsPending_saveCheckpoint _).bind fun _ => .pure fun _ ha => ha
  refine keepsPending_loadCheckpoint.bind fun saved => ?_
  cases saved with
  | none => exact .get_bind fun a s ha => (hscan _ _).of_eq ha
  | some checkpoint =>
      refine ((Ensures.heightAfter checkpoint).mono (fun _ h => h) (fun _ _ h => h.1)
        fun _ h => h).bind fun lo => ?_
      split
      · exact .pure fun _ ha => ha
      · exact (Ensures.blockHashAt _).bind fun start => hscan start _

theorem keepsPending_rebuildUnstable {lo tip : Nat} :
    KeepsPending pending (rebuildUnstable explorer lo tip) :=
  keepsPending_clearUnstable.bind fun _ => (Ensures.blockHashAt lo).bind fun _ =>
    keepsPending_synchronizeWindow

/-- A refresh that is stopped leaves the unconfirmed transactions alone. -/
theorem ensures_pending_refreshPending : Ensures (·.pending = pending) (refreshPending explorer)
    (fun _ _ => True) fun _ a => a.pending = pending := by
  intro a s ha
  rw [perform_refreshPending, perform_askPending]
  rcases Schedule.runAll (Pending.service explorer) _ [] s with ⟨e | _, answers, s'⟩
  · exact ha
  · trivial

/-- **A pass that is stopped leaves the unconfirmed transactions alone**, wherever it stops: until they
are refreshed, no step of a pass touches them. -/
theorem ensures_pending_synchronize : Ensures (·.pending = pending) (synchronize explorer now)
    (fun _ _ => True) fun _ a => a.pending = pending := by
  refine Ensures.synchronize ?_ (fun _ h => h) fun _ h => h
  have htip : KeepsPending pending (ask explorer explorer.tip) :=
    (Ensures.ask (R := fun _ => True) fun _ => trivial).mono (fun _ h => h) (fun _ _ h => h.1) fun _ h => h
  refine htip.bind fun tip => ?_
  refine .bind (Q := fun _ => (·.pending = pending)) (.change fun a ha => ha) fun _ => ?_
  refine .get_bind fun a s ha => ?_
  refine ((Ensures.optionMapM (R := (·.pending = pending)) (fun hi _ => keepsPending_synchronizeStable)
    fun _ b hb => hb).of_eq ha).bind fun stable => ?_
  refine (Ensures.optionMapM (R := (·.pending = pending)) (fun lo _ => keepsPending_rebuildUnstable)
    fun _ b hb => hb).bind fun unstable => ?_
  exact ensures_pending_refreshPending.bind fun count => .pure fun _ _ => trivial

end Action

theorem Pass.pending_of_error (p : Pass) {stop : Stop} (h : p.outcome = .error stop) :
    p.after.pending = p.account.pending :=
  Action.ensures_pending_synchronize.of_error rfl (Prod.ext h rfl)

/-! ### Refreshes are exact, and all or nothing -/

/-- The account, with requests of another size. -/
def Account.withBatchSize (a : Account) (size : UInt32) : Account :=
  { a with config := { a.config with batchSize := size } }

namespace Refresh

variable {r : Refresh} {pool : List Transaction}

/-- **A refresh is exact, and all or nothing.**  If it succeeds, the account holds the unconfirmed
transactions of the pool that it watched before, one of each hash, with used counts that end at what they
pay; and the size of the requests makes no difference.  It does not overflow, and it fails if and only if
one of its requests fails; then the account is what it was, with no event told.  A pass that is stopped
leaves the unconfirmed transactions alone, wherever it stops. -/
theorem exact_and_atomic (hvalid : r.account.config.Valid) (hsurveys : r.explorer.Surveys pool) :
    (∀ n, r.outcome = .ok n → r.account.Refreshed pool n r.after ∧
      (HashesIdentify pool → ∀ tx, tx ∈ r.after.pending ↔ r.account.Awaits pool tx) ∧
      ∀ (r' : Refresh) (size : UInt32) (n' : Nat), r'.explorer.Surveys pool →
        r'.account = r.account.withBatchSize size → r'.account.config.Valid → r'.outcome = .ok n' →
        n' = n ∧ (r'.after.pending.map (·.hash)).Perm (r.after.pending.map (·.hash)) ∧
          (HashesIdentify pool → r'.after.pending.Perm r.after.pending ∧
            ∀ c, (r'.after.chains.get c).used = (r.after.chains.get c).used)) ∧
      ((∃ e, r.outcome = .error (.failed e)) ↔
        ∃ x ∈ r.inquiries, ∃ failure, x.reply = .error failure) ∧
      r.outcome ≠ .error .overflow ∧ (∀ stop, r.outcome = .error stop → r.after = r.account) ∧
      ∀ (p : Pass) (stop : Stop), p.outcome = .error stop → p.after.pending = p.account.pending := by
  refine ⟨fun n hok => ?_, ?_, fun hover => ?_, fun stop hfail => ?_,
    fun p stop hfail => p.pending_of_error hfail⟩
  · have h := refreshed_of_ok hvalid hsurveys hok
    refine ⟨h, fun hident tx => h.mem_pending_iff hident,
      fun r' size n' hsurveys' haccount hvalid' hok' => ?_⟩
    have h' := refreshed_of_ok hvalid' hsurveys' hok'
    have hawaits : ∀ tx, r'.account.Awaits pool tx ↔ r.account.Awaits pool tx := fun tx => by
      rw [haccount]
      rfl
    have hhashes := h.perm_hashes h' hawaits
    refine ⟨?_, hhashes, fun hident => ?_⟩
    · simpa only [h.count, h'.count, List.length_map] using hhashes.length_eq
    · have hperm := h.perm_pending h' hident hawaits
      exact ⟨hperm, fun c => h.used_eq h' (haccount ▸ rfl) hperm c⟩
  · cases effect hvalid hsurveys with
    | failed hx hreply houtcome _ => exact iff_of_true ⟨_, houtcome⟩ ⟨_, hx, _, hreply⟩
    | done hreplies houtcome _ =>
        refine iff_of_false (fun ⟨e, he⟩ => nomatch houtcome.symm.trans he) ?_
        rintro ⟨x, hx, failure, hreply⟩
        obtain ⟨txs, htxs⟩ := hreplies x hx
        cases hreply.symm.trans htxs
  · cases effect hvalid hsurveys with
    | failed _ _ houtcome _ => cases houtcome.symm.trans hover
    | done _ houtcome _ => cases houtcome.symm.trans hover
  · cases effect hvalid hsurveys with
    | failed _ _ _ hafter => exact hafter
    | done _ houtcome _ => cases houtcome.symm.trans hfail

/-- A transaction that pays these addresses. -/
def paying (hash : String) (addresses : List String) (block : Option Block := none) : Transaction :=
  { hash, block, outputs := addresses.map fun address => { address := some address } }

/-- An account with three addresses to receive funds, two of which are in the gap, and one for change. -/
def gapOfTwo : Account :=
  { config := ⟨1, 1, 2, 2, "g"⟩, chains := ⟨.ofList ["a", "b", "c"] 0, .ofList ["z"] 0⟩,
    stable := .memory .empty, unstable := .memory .empty, pending := [], checkpoints := .memory none,
    disk := .empty, journal := [] }

/-- Two unconfirmed transactions that the account watches, one that it does not, and a confirmed one. -/
def fourPayments : List Transaction :=
  [paying "u" ["a", "b"], paying "t" ["a"] (some ⟨"1", 1, .epoch⟩), paying "v" ["z"], paying "w" ["c"]]

/-- The transaction that two requests hear of is held once, as with one request for everything.  When the
second request fails, nothing happens. -/
theorem exact_and_atomic_fourPayments :
    let refresh : List String → UInt32 → Refresh := fun lost size =>
      ⟨Unit, .ofPool fourPayments lost, (), gapOfTwo.withBatchSize size⟩
    (refresh [] 1).outcome = .ok 2 ∧ gapOfTwo.Refreshed fourPayments 2 (refresh [] 1).after ∧
      (refresh [] 1).after.pending = [paying "u" ["a", "b"], paying "v" ["z"]] ∧
      (refresh [] 4).after.pending.Perm (refresh [] 1).after.pending ∧
      (∃ e, (refresh ["b"] 1).outcome = .error (.failed e)) ∧ (refresh ["b"] 1).after = gapOfTwo := by
  intro refresh
  have hvalid : gapOfTwo.config.Valid := ⟨by decide, by decide, by decide⟩
  have hsurveys : ∀ lost, (refresh lost 1).explorer.Surveys fourPayments := Explorer.surveys_ofPool _
  obtain ⟨hok, -⟩ := exact_and_atomic (r := refresh [] 1) hvalid (hsurveys [])
  obtain ⟨-, -, -, hrest, -⟩ := exact_and_atomic (r := refresh ["b"] 1) hvalid (hsurveys ["b"])
  have houtcome : (refresh [] 1).outcome = .ok 2 := by decide +kernel
  have hfails : (refresh ["b"] 1).outcome =
      .error (.failed (.explorer (.transport "connection reset"))) := by decide +kernel
  obtain ⟨hrefreshed, -, hsize⟩ := hok 2 houtcome
  obtain ⟨-, -, hsame⟩ := hsize (refresh [] 4) 4 2 (Explorer.surveys_ofPool _ _) rfl
    ⟨by decide, by decide, by decide⟩ (by decide +kernel)
  exact ⟨houtcome, hrefreshed, by decide +kernel, (hsame (by decide)).1, ⟨_, hfails⟩, hrest _ hfails⟩

end Refresh
end WatchWallet
