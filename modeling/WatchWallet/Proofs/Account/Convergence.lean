import Mathlib.Tactic.Common
import WatchWallet.Proofs.Account.Pass

/-!
# Account — Convergence

However many passes over an account fail, and wherever, the next one that succeeds leaves exactly what
touches the account in its stores (`synchronize_converges`): in the stable store what is mined at the
final heights, in the unstable store what is mined above them.  Between the passes the chain may grow,
and it may replace what is not final.
-/

namespace WatchWallet

namespace Account

/-- Nothing is stored of the account. -/
structure Blank (a : Account) : Prop where
  stable : a.stable.blocks = .empty
  unstable : a.unstable.blocks = .empty
  checkpoints : a.checkpoints = .memory none

/-- What can become of an account in a number of passes, with the chain that the last one met.  Each
pass has an honest explorer, and its chain follows the one before.  It succeeds or fails: after an
overflow, which ends the program, there is no other. -/
inductive History (start : Account) : Option Blockchain → Account → Prop where
  | start : History start none start
  | pass {last : Option Blockchain} {c : Blockchain} {a a' : Account} {page : Nat} {σ : Type}
      {explorer : Explorer σ} {now : Instant} {s s' : σ} {result : Except SyncError SyncStats}
      (h : History start last a)
      (hfollows : ∀ b ∈ last, b.Follows start.config.unstableDepth.toNat c)
      (hsuits : start.Suits c) (hpage : 1 ≤ page) (hhonest : explorer.Honest c page)
      (hrun : (Action.synchronize explorer now).perform a s = (result.mapError .failed, a', s')) :
      History start (some c) a'

variable {start a : Account} {last : Option Blockchain} {c : Blockchain}

/-- Before anything is stored an account is sound on every chain. -/
theorem sound_of_empty (hplaced : start.Placed start)
    (hload : start.checkpoints.load start.disk = .ok none)
    (hstable : ∀ h, start.stable.blocks.at? h = none)
    (hunstable : ∀ h, start.unstable.blocks.at? h = none) : start.Sound c start := by
  have hresume : start.resumeAt = 0 := by
    rw [resumeAt, hload, Action.storedStart]
    rcases start.stable.blocks.last?_cases with ⟨hlast, -⟩ | ⟨x, b, -, hb, -⟩
    · rw [hlast]
    · cases (hstable x).symm.trans hb
  refine ⟨⟨rfl, fun _ => rfl⟩, hplaced, fun {h' b} hb => ?_, ?_, ?_, fun _ => hunstable⟩
  · cases (hstable h').symm.trans hb
  · rw [hresume]
    exact Nat.zero_le _
  · rw [hresume]
    exact ⟨fun x hx => absurd hx (Nat.not_lt_zero x), fun _ hx => absurd hx (Nat.not_lt_zero _)⟩

theorem Blank.sound (h : start.Blank) : start.Sound c start := by
  refine sound_of_empty ?_ ?_ (h.stable ▸ Blocks.at?_empty) (h.unstable ▸ Blocks.at?_empty)
  · rw [Placed, h.checkpoints]
    exact ⟨none, rfl⟩
  · rw [h.checkpoints]
    rfl

end Account

namespace Action
open Window (paymentBlock threeBlocks)

variable {σ : Type} {explorer : Explorer σ} {start a : Account} {last : Option Blockchain}
  {c : Blockchain} {page : Nat} {now : Instant}

theorem ensures_synchronize (hpage : 1 ≤ page) (hhonest : explorer.Honest c page)
    (hvalid : start.config.Valid) (hsuits : start.Suits c) :
    Ensures (start.Sound c) (synchronize explorer now)
      (fun _ a => start.Sound c a ∧ start.Settled c a) (WhenFailed (start.Sound c)) := by
  have htold : ∀ {b : Account} acts, start.Sound c b →
      start.Sound c { b with journal := b.journal ++ acts } ∧
        Account.resumeAt { b with journal := b.journal ++ acts } = b.resumeAt := fun {b} acts hb =>
    hb.frame (b := { b with journal := b.journal ++ acts }) rfl rfl
      (hb.placed.frame rfl rfl rfl rfl) rfl (.refl _) hb.unstable
  refine (ensures_synchronizeAll hpage hhonest hvalid hsuits).synchronize (fun acts hb => ?_)
    fun {stop b} acts hb => ?_
  case refine_2 =>
    cases stop with
    | failed e => exact (htold acts hb).1
    | overflow => trivial
  obtain ⟨hs, hresume⟩ := htold acts hb.1
  exact ⟨hs, hresume.trans hb.2.resumeAt_eq, hb.2.stable, hb.2.unstable⟩

/-- **What became of an account is sound** on every chain that may follow. -/
theorem sound_of_history (hvalid : start.config.Valid) (hstart : ∀ c, start.Sound c start)
    (h : start.History last a) :
    ∀ {c}, (∀ b ∈ last, b.Follows start.config.unstableDepth.toNat c) → start.Sound c a := by
  induction h with
  | start => exact fun _ => hstart _
  | @pass last c a a' page σ explorer now s s' result h hfollows hsuits hpage hhonest hrun ih =>
      intro next hnext
      refine Account.Sound.follows ?_ (hnext c rfl)
      have hpass : Ensures (start.Sound c) (synchronize explorer now) _ _ :=
        ensures_synchronize hpage hhonest hvalid hsuits
      cases result with
      | error e =>
          have hfailed : (synchronize explorer now).perform a s = (.error (.failed e), a', s') := hrun
          exact hpass.of_error (ih hfollows) hfailed
      | ok stats => exact (hpass.of_ok (ih hfollows) hrun).1

/-- **Passes converge.**  After any number of passes, of which each may have failed at any request, a
pass that succeeds leaves in the stable store exactly what touches the account at the final heights of
the chain, and in the unstable store exactly what touches it above them. -/
theorem synchronize_converges (hvalid : start.config.validate = .ok ()) (hblank : start.Blank)
    (hhistory : start.History last a)
    (hfollows : ∀ b ∈ last, b.Follows start.config.unstableDepth.toNat c)
    (hsuits : start.Suits c) (hpage : 1 ≤ page) (hhonest : explorer.Honest c page)
    {s s' : σ} {stats : SyncStats} {a' : Account}
    (hrun : (synchronize explorer now).perform a s = (.ok stats, a', s')) :
    let depth := start.config.unstableDepth.toNat
    c.Extracts start.owned 0 (c.blocks.length - depth) a'.stable.blocks.toList ∧
      c.Extracts start.owned (c.blocks.length - depth) c.blocks.length
        a'.unstable.blocks.toList := by
  have hvalid := SyncConfig.validate_eq_ok_iff.1 hvalid
  have hpass : Ensures (start.Sound c) (synchronize explorer now) _ _ :=
    ensures_synchronize hpage hhonest hvalid hsuits
  have hs : start.Sound c a := sound_of_history hvalid (fun _ => hblank.sound) hhistory hfollows
  obtain ⟨-, hsettled⟩ := hpass.of_ok hs hrun
  exact ⟨hsettled.stable, hsettled.unstable⟩

/-- An account with two addresses; the last block may be replaced. -/
def twoAddressAccount : Account :=
  { config := ⟨1, 1, 1, 2, "g"⟩, chains := ⟨.ofList ["a", "z"] 0, .ofList [] 0⟩,
    stable := .memory .empty, unstable := .memory .empty, pending := [], checkpoints := .memory none,
    disk := .empty, journal := [] }

/-- Such an account may live on a chain where the first address is paid at the height 1 and the second
one at the height 2, and neither is touched before. -/
theorem suits_twoAddressAccount {c : Blockchain} (hgenesis : c.StartsAt (some "g") 0)
    (hmined : c.mined 0 = []) {t u : Transaction} (ht : t ∈ c.mined 1) (ha : "a" ∈ t.paidAddresses)
    (hu : u ∈ c.mined 2) (hz : "z" ∈ u.paidAddresses) (hnew : c.touching ["z"] 1 = []) :
    twoAddressAccount.Suits c := by
  have hpos : ∀ {a x}, c.TouchedAt a x → 1 ≤ x := by
    rintro a (_ | x) ⟨tx, htx, -⟩
    · rw [hmined] at htx
      cases htx
    · exact Nat.le_add_left 1 x
  have hreceive : c.Regular ["a", "z"] 1 := by
    refine ⟨fun {i a x} hget hi htouched => ?_, fun {a x} hmem htouched => ?_⟩
    · refine ⟨i - 1, "a", 1, Nat.le_refl _, Nat.sub_lt hi Nat.one_pos, ?_, hpos htouched, t, ht,
        Transaction.touches_of_mem_paidAddresses ha⟩
      have hlt : i < 2 := (List.getElem?_eq_some_iff.1 hget).1
      obtain rfl : i = 1 := by omega
      rfl
    · rcases List.mem_pair.1 hmem with rfl | rfl
      · exact ⟨1, t, hpos htouched, ht, ha⟩
      · refine ⟨2, u, ?_, hu, hz⟩
        refine Nat.lt_of_le_of_ne (hpos htouched) ?_
        rintro rfl
        obtain ⟨tx, htx, htouches⟩ := htouched
        exact List.ne_nil_of_mem (Blockchain.mem_touching.2 ⟨htx, htouches⟩) hnew
  refine ⟨hgenesis, fun ch => ?_⟩
  cases ch with
  | receive => exact hreceive
  | change => exact ⟨fun hget => absurd hget (by simp [twoAddressAccount, Chains.get, Keychain.ofList]),
      fun hmem => absurd hmem List.not_mem_nil⟩

/-- The last of the three blocks is replaced, and another one follows. -/
def replacedBlock : Blockchain where
  blocks := [paymentBlock ⟨"g", 0, .epoch⟩ [], paymentBlock ⟨"b", 1, .epoch⟩ [("t", ["a"])],
    paymentBlock ⟨"d", 2, .epoch⟩ [("w", ["a", "z"])], paymentBlock ⟨"e", 3, .epoch⟩ [("x", ["z"])]]
  heights := by decide
  nodup_hashes := by decide
  block_eq := by decide
  nodup_transactions := by decide

/-- The three blocks, from an explorer that cannot look up a block. -/
def lookupFails : Explorer Unit :=
  { threeBlocks.explorer 2 with block := fun _ s => (.error (.blockNotFound "lost"), s) }

/-- The first pass stores the first two blocks and fails when it asks for the hash to note with the
checkpoint; the second one finds the last block replaced, and resumes at the last stored block. -/
theorem synchronize_converges_replacedBlock :
    ∃ e a, (synchronize lookupFails .epoch).perform twoAddressAccount () = (.error (.failed e), a, ()) ∧
      ∃ stats a', (synchronize (replacedBlock.explorer 2) .epoch).perform a () = (.ok stats, a', ()) ∧
        replacedBlock.Extracts ["a", "z"] 0 3 a'.stable.blocks.toList ∧
        replacedBlock.Extracts ["a", "z"] 3 4 a'.unstable.blocks.toList := by
  have hsuits : twoAddressAccount.Suits threeBlocks := suits_twoAddressAccount
    ⟨_, rfl, rfl⟩ rfl (List.mem_singleton.2 rfl) (by decide) List.mem_cons_self (by decide) rfl
  have hsuits' : twoAddressAccount.Suits replacedBlock := suits_twoAddressAccount
    ⟨_, rfl, rfl⟩ rfl (List.mem_singleton.2 rfl) (by decide) List.mem_cons_self (by decide) rfl
  have hhonest : lookupFails.Honest threeBlocks 2 :=
    ⟨(threeBlocks.honest_explorer 2).keeps, (threeBlocks.honest_explorer 2).tip, nofun⟩
  have hfollows : Blockchain.Follows 1 threeBlocks replacedBlock := by
    refine ⟨by decide, fun {h} hh => ?_⟩
    match h, hh with
    | 0, _ | 1, _ => rfl
  have herror : ((synchronize lookupFails .epoch).perform twoAddressAccount ()).1 =
      .error (.failed (.explorer (.blockNotFound "lost"))) := by
    decide +kernel
  have hok : ((synchronize (replacedBlock.explorer 2) .epoch).perform
      ((synchronize lookupFails .epoch).perform twoAddressAccount ()).2.1 ()).1.isOk = true := by
    decide +kernel
  rcases hfirst : (synchronize lookupFails .epoch).perform twoAddressAccount () with ⟨_, a, ⟨⟩⟩
  rw [hfirst] at herror hok
  obtain rfl := herror
  rcases hsecond : (synchronize (replacedBlock.explorer 2) .epoch).perform a () with
    ⟨_ | stats, a', ⟨⟩⟩
  · rw [hsecond] at hok
    cases hok
  · let failed : Except SyncError SyncStats := .error (.explorer (.blockNotFound "lost"))
    have hfailed : (synchronize lookupFails .epoch).perform twoAddressAccount () =
        (failed.mapError .failed, _, ()) := hfirst
    exact ⟨_, a, rfl, stats, a', hsecond, synchronize_converges rfl ⟨rfl, rfl, rfl⟩
      (.pass .start (fun _ hb => absurd hb (Option.not_mem_none _)) hsuits (Nat.le_succ 1) hhonest hfailed)
      (fun b hb => Option.some.inj hb ▸ hfollows) hsuits' (Nat.le_succ 1)
      (replacedBlock.honest_explorer 2) hsecond⟩

end Action
end WatchWallet
