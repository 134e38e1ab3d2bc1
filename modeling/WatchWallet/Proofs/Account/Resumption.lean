import WatchWallet.Proofs.Account.Places
import WatchWallet.Proofs.Blockchain.Growth
import WatchWallet.Proofs.Keychain.Marking

/-!
# Account — Resumption

What holds of an account between passes, whatever became of them (`Account.Sound`): the stable blocks
are final and whole, and below the height at which the next pass resumes, none is missing and every
address that was touched is known to be used.  A scan of the stable window keeps it
(`Sound.scan`), the growth of the chain keeps it (`Sound.follows`), and it is all that a pass needs of
the passes before it.
-/

namespace WatchWallet

/-- What is stored at a height after a scan: what the scan found there, or else what was there. -/
theorem Window.Scanned.at?_cases {v w : Window} {s : Search} {stop : Nat} {blocks : List FilledBlock}
    (hw : v.Scanned s stop blocks w) (x : Nat) :
    (∃ block ∈ blocks, block.height = x ∧ w.store.blocks.at? x = some block) ∨
      (∀ block ∈ blocks, block.height ≠ x) ∧ w.store.blocks.at? x = v.store.blocks.at? x := by
  rw [hw.store, BlockStore.blocks_flush, BlockStore.blocks_foldl_add]
  exact v.store.blocks.at?_addAll blocks x

namespace Blockchain

/-- The block is the one at a height of the chain, with what touches the addresses, and something
does. -/
structure Shows (c : Blockchain) (addresses : List String) (h : Nat) (b : FilledBlock) : Prop where
  header : c.header? h = some b.header
  nonempty : b.transactions ≠ []
  perm : b.transactions.Perm (c.touching addresses h)

variable {c next : Blockchain} {addresses : List String} {depth lo stop h : Nat} {b : FilledBlock}

theorem Shows.height_eq (hb : c.Shows addresses h b) : b.height = h :=
  height_of_header? hb.header

theorem Extracts.shows {blocks : List FilledBlock} (he : c.Extracts addresses lo stop blocks)
    (hb : b ∈ blocks) : lo ≤ b.height ∧ b.height < stop ∧ c.Shows addresses b.height b := by
  obtain ⟨hlo, hlt, hheader, hne, hperm⟩ := he.block b hb
  exact ⟨hlo, hlt, hheader, hne, hperm⟩

theorem Shows.follows (hf : Follows depth c next) (hh : h < c.final depth)
    (hb : c.Shows addresses h b) : next.Shows addresses h b := by
  refine ⟨(hf.header?_eq hh).trans hb.header, hb.nonempty, ?_⟩
  rw [hf.touching_eq hh]
  exact hb.perm

/-- What a store holds at its heights, in a list. -/
theorem extracts_toList {blocks : Blocks}
    (hwhole : ∀ {h b}, blocks.at? h = some b → lo ≤ h ∧ h < stop ∧ c.Shows addresses h b)
    (hall : ∀ x, lo ≤ x → x < stop → c.touching addresses x ≠ [] → blocks.at? x ≠ none) :
    c.Extracts addresses lo stop blocks.toList := by
  refine ⟨Blocks.pairwise_toList fun hb => (hwhole hb).2.2.height_eq, fun b hb => ?_,
    fun x hlo hlt hne => ?_⟩
  · obtain ⟨h, hh⟩ := Blocks.mem_toList.1 hb
    obtain ⟨hlo, hlt, hshows⟩ := hwhole hh
    obtain rfl := hshows.height_eq
    exact ⟨hlo, hlt, hshows.header, hshows.nonempty, hshows.perm⟩
  · obtain ⟨b, hb⟩ := Option.ne_none_iff_exists'.1 (hall x hlo hlt hne)
    exact ⟨b, Blocks.mem_toList.2 ⟨x, hb⟩, (hwhole hb).2.2.height_eq⟩

/-- What a scan finds is what an empty store holds after it. -/
theorem Extracts.store_of_scanned {s : Search} {v w : Window} {blocks : List FilledBlock}
    (he : c.Extracts addresses lo stop blocks) (hw : v.Scanned s stop blocks w)
    (hempty : ∀ h, v.store.blocks.at? h = none) :
    c.Extracts addresses lo stop w.store.blocks.toList := by
  refine extracts_toList (fun {h b} hb => ?_) fun x hlo hlt hne => ?_
  · rcases hw.at?_cases h with ⟨block, hmem, rfl, hnew⟩ | ⟨-, hold⟩
    · obtain rfl := Option.some.inj (hnew.symm.trans hb)
      exact he.shows hmem
    · cases (hempty h).symm.trans (hold.symm.trans hb)
  · obtain ⟨block, hmem, hheight⟩ := he.exists_block x hlo hlt hne
    rcases hw.at?_cases x with ⟨block', -, -, hnew⟩ | ⟨hnone, -⟩
    · rw [hnew]
      exact Option.some_ne_none block'
    · exact absurd hheight (hnone block hmem)

end Blockchain

namespace Account

/-- The addresses of an account. -/
def owned (a : Account) : List String :=
  a.chains.receive.addresses ++ a.chains.change.addresses

/-- The height at which the next pass resumes the stable window: after the checkpoint, or at the last
stored block. -/
def resumeAt (a : Account) : Nat :=
  match a.checkpoints.load a.disk with
  | .ok (some checkpoint) => checkpoint.height.toNat + 1
  | _ => (Action.storedStart a).2

/-- A chain that an account may live on: it starts with the first block that the account knows, and
activity keeps to the gap. -/
structure Suits (a : Account) (c : Blockchain) : Prop where
  genesis : c.StartsAt (some a.config.genesisHash) 0
  regular : ∀ ch, c.Regular (a.chains.get ch).addresses a.config.gapSize.toNat

/-- What becomes of an account: its configuration and its addresses stay. -/
structure Becomes (base a : Account) : Prop where
  config : a.config = base.config
  addresses : ∀ ch, (a.chains.get ch).addresses = (base.chains.get ch).addresses

/-- Below a height, every block of the chain that touches the account is stored, and every address
that was touched is known to be used. -/
structure Caught (base : Account) (c : Blockchain) (h : Nat) (a : Account) : Prop where
  stored : ∀ x < h, c.touching base.owned x ≠ [] → a.stable.blocks.at? x ≠ none
  known : ∀ {ch i address x}, (base.chains.get ch).addresses[i]? = some address → x < h →
    c.TouchedAt address x → i < (a.chains.get ch).used

/-- What holds between passes of what has become of an account, on a chain. -/
structure Sound (base : Account) (c : Blockchain) (a : Account) : Prop extends
    Becomes base a where
  placed : base.Placed a
  whole : ∀ {h b}, a.stable.blocks.at? h = some b →
    h < c.final base.config.unstableDepth.toNat ∧ c.Shows base.owned h b
  resumeAt_le : a.resumeAt ≤ c.final base.config.unstableDepth.toNat
  caught : base.Caught c a.resumeAt a
  /-- Without an unstable window its store is never used. -/
  unstable : base.config.unstableDepth.toNat = 0 → ∀ h, a.unstable.blocks.at? h = none

/-- The next pass resumes behind the last final height, and the stores of the account hold what touches
it: the stable one at the final heights, the unstable one above them. -/
structure Settled (base : Account) (c : Blockchain) (a : Account) : Prop where
  resumeAt_eq : a.resumeAt = c.final base.config.unstableDepth.toNat
  stable : c.Extracts base.owned 0 (c.final base.config.unstableDepth.toNat) a.stable.blocks.toList
  unstable : c.Extracts base.owned (c.final base.config.unstableDepth.toNat) c.blocks.length
    a.unstable.blocks.toList

variable {base a b : Account} {c next : Blockchain} {h k lo hi stop : Nat}

/-! ### Where a pass resumes -/

/-- Without a checkpoint the window is resumed at or above every stored block. -/
theorem le_storedStart {block : FilledBlock} (hb : a.stable.blocks.at? h = some block)
    (hkeys : ∀ {x b}, a.stable.blocks.at? x = some b → b.height = x) :
    h ≤ (Action.storedStart a).2 := by
  rcases a.stable.blocks.last?_cases with ⟨-, hnone⟩ | ⟨l, last, hlast, hat, hle⟩
  · rw [hnone] at hb
    cases hb
  · rw [Action.storedStart, hlast]
    calc h ≤ l := hle h (by rw [hb]; exact Option.some_ne_none _)
      _ = last.height := (hkeys hat).symm

/-- Without a checkpoint the window is resumed at a stored block, or at the first height. -/
theorem storedStart_cases (hkeys : ∀ {x b}, a.stable.blocks.at? x = some b → b.height = x) :
    Action.storedStart a = (a.config.genesisHash, 0) ∨
      ∃ block, a.stable.blocks.at? block.height = some block ∧
        Action.storedStart a = (block.header.hash, block.height) := by
  rcases a.stable.blocks.last?_cases with ⟨hlast, -⟩ | ⟨l, last, hlast, hat, -⟩
  · exact .inl (by rw [Action.storedStart, hlast])
  · obtain rfl := hkeys hat
    exact .inr ⟨last, hat, by rw [Action.storedStart, hlast]; rfl⟩

/-! ### What keeps the account sound -/

theorem Caught.mono (hc : base.Caught c h a) (hle : k ≤ h) : base.Caught c k a :=
  ⟨fun x hx => hc.stored x (Nat.lt_of_lt_of_le hx hle),
    fun ha hx => hc.known ha (Nat.lt_of_lt_of_le hx hle)⟩

namespace Sound

theorem keys (hs : Sound base c a) {block : FilledBlock} (hb : a.stable.blocks.at? h = some block) :
    block.height = h :=
  (hs.whole hb).2.height_eq

/-- The growth of the chain keeps an account sound. -/
theorem follows (hs : Sound base c a)
    (hf : Blockchain.Follows base.config.unstableDepth.toNat c next) : Sound base next a := by
  have hfinal : ∀ {x}, x < a.resumeAt → x < c.final base.config.unstableDepth.toNat :=
    fun hx => Nat.lt_of_lt_of_le hx hs.resumeAt_le
  refine { hs with
    whole := fun hb => ?_
    resumeAt_le := Nat.le_trans hs.resumeAt_le hf.final_le
    caught := ⟨fun x hx hne => ?_, fun ha hx htouched => ?_⟩ }
  · obtain ⟨hlt, hshows⟩ := hs.whole hb
    exact ⟨Nat.lt_of_lt_of_le hlt hf.final_le, hshows.follows hf hlt⟩
  · rw [hf.touching_eq (hfinal hx)] at hne
    exact hs.caught.stored x hx hne
  · exact hs.caught.known ha hx ((hf.touchedAt_iff (hfinal hx)).1 htouched)

/-- Whatever leaves the stable side as it is and forgets no used address keeps an account sound. -/
theorem frame (hs : Sound base c a) (hconfig : b.config = a.config) (hstable : b.stable = a.stable)
    (hplaced : base.Placed b) (hload : b.checkpoints.load b.disk = a.checkpoints.load a.disk)
    (hchains : a.chains.Grows b.chains)
    (hunstable : base.config.unstableDepth.toNat = 0 → ∀ h, b.unstable.blocks.at? h = none) :
    Sound base c b ∧ b.resumeAt = a.resumeAt := by
  have hresume : b.resumeAt = a.resumeAt := by
    unfold resumeAt Action.storedStart
    rw [hload, hstable, hconfig]
  refine ⟨⟨⟨hconfig.trans hs.config, fun ch => (hchains ch).1.trans (hs.addresses ch)⟩, hplaced, ?_,
    ?_, ?_, hunstable⟩, hresume⟩
  · exact hstable ▸ hs.whole
  · exact hresume ▸ hs.resumeAt_le
  · rw [hresume]
    refine ⟨?_, fun ha hx htouched => ?_⟩
    · exact hstable ▸ hs.caught.stored
    · exact Nat.lt_of_lt_of_le (hs.caught.known ha hx htouched) (hchains _).2

/-- When the next pass resumes behind the last final height, all that is final is stored. -/
theorem extracts_stable (hs : Sound base c a)
    (hresume : a.resumeAt = c.final base.config.unstableDepth.toNat) :
    c.Extracts base.owned 0 (c.final base.config.unstableDepth.toNat) a.stable.blocks.toList :=
  Blockchain.extracts_toList (fun {_ _} hb => ⟨Nat.zero_le _, hs.whole hb⟩)
    fun x _ hlt hne => hs.caught.stored x (hresume ▸ hlt) hne

/-- Without an unstable window there is nothing above the final heights. -/
theorem extracts_unstable (hs : Sound base c a) (hdepth : base.config.unstableDepth.toNat = 0) :
    c.Extracts base.owned (c.final base.config.unstableDepth.toNat) c.blocks.length
      a.unstable.blocks.toList := by
  refine Blockchain.extracts_toList (fun {h b} hb => ?_) fun x hlo hlt _ => ?_
  · cases (hs.unstable hdepth h).symm.trans hb
  · rw [Blockchain.final, hdepth] at hlo
    exact absurd hlt (Nat.not_lt.2 hlo)

end Sound

/-! ### A scan -/

theorem Becomes.owned_eq (ha : base.Becomes a) : a.owned = base.owned := by
  show (a.chains.get .receive).addresses ++ (a.chains.get .change).addresses = _
  rw [ha.addresses, ha.addresses]
  rfl

section Scan

variable {kind : WindowKind} {blocks : List FilledBlock} {w : Window}

/-- The search of a window that starts where everything before is known. -/
theorem Caught.disciplined (hc : base.Caught c lo a) (ha : base.Becomes a) (hsuits : base.Suits c)
    (hi : Nat) (ch : Chain) : ((a.window kind).search a.config c lo).Disciplined ch hi := by
  refine Blockchain.Regular.disciplined ?_ fun {i address x} haddress hx htouched => ?_
  · show c.Regular (a.chains.get ch).addresses a.config.gapSize.toNat
    rw [ha.addresses, ha.config]
    exact hsuits.regular ch
  · have haddress' : (base.chains.get ch).addresses[i]? = some address :=
      ha.addresses ch ▸ haddress
    exact hc.known haddress' hx htouched

/-- A scan from where everything before is known finds everything up to its end. -/
theorem Caught.extracts (hc : base.Caught c lo a) (ha : base.Becomes a) (hsuits : base.Suits c)
    (hgap : 0 < base.config.gapSize.toNat)
    (hw : (a.window kind).Scanned ((a.window kind).search a.config c lo) stop blocks w) :
    c.Extracts base.owned lo stop blocks := by
  rw [← ha.owned_eq]
  exact hw.delivers.extracts (Nat.le_succ stop) (ha.config ▸ hgap) (hc.disciplined ha hsuits stop)

/-- After a scan from where everything before is known, everything up to its end is known. -/
theorem Caught.known_of_scanned (hc : base.Caught c lo a) (ha : base.Becomes a)
    (hsuits : base.Suits c) (hgap : 0 < base.config.gapSize.toNat)
    (hw : (a.window kind).Scanned ((a.window kind).search a.config c lo) stop blocks w)
    {ch : Chain} {i x : Nat} {address : String}
    (haddress : (base.chains.get ch).addresses[i]? = some address) (hx : x < stop)
    (htouched : c.TouchedAt address x) : i < (w.chains.get ch).used := by
  obtain ⟨y, tx, hle, htx, hpaid⟩ :=
    (hsuits.regular ch).paid (List.mem_of_getElem? haddress) htouched
  have hy : c.TouchedAt address y := ⟨tx, htx, Transaction.touches_of_mem_paidAddresses hpaid⟩
  by_cases hbefore : y < lo
  · exact Nat.lt_of_lt_of_le (hc.known haddress hbefore hy) (hw.used_le ch)
  · have haddress' : (a.chains.get ch).addresses[i]? = some address := (ha.addresses ch).symm ▸ haddress
    refine hw.marked ⟨htx, i, address, haddress', ?_, Transaction.touches_of_mem_paidAddresses hpaid⟩
      (Nat.lt_of_le_of_lt hle hx) haddress' hpaid
    exact Search.seen_of_touchedAt (ha.config ▸ hgap) (hc.disciplined ha hsuits y ch)
      haddress' (Nat.not_lt.1 hbefore) (Nat.le_refl y) hy

theorem becomes_ofWindow (ha : base.Becomes a)
    (hw : (a.window kind).Scanned ((a.window kind).search a.config c lo) stop blocks w) :
    base.Becomes (a.ofWindow w) := by
  exact ⟨(a.config_ofWindow w).trans ha.config,
    fun ch => (hw.addresses ch).trans (ha.addresses ch)⟩

namespace Sound

variable (hs : Sound base c a) (hsuits : base.Suits c) (hgap : 0 < base.config.gapSize.toNat)
  (hw : (a.window .stable).Scanned ((a.window .stable).search a.config c a.resumeAt) stop blocks w)
include hs hsuits hgap hw

theorem whole_of_scanned (hstop : stop ≤ c.final base.config.unstableDepth.toNat) {h : Nat}
    {b : FilledBlock} (hb : w.store.blocks.at? h = some b) :
    h < c.final base.config.unstableDepth.toNat ∧ c.Shows base.owned h b := by
  rcases hw.at?_cases h with ⟨block, hmem, rfl, hnew⟩ | ⟨-, hold⟩
  · obtain rfl := Option.some.inj (hnew.symm.trans hb)
    obtain ⟨-, hlt, hshows⟩ := (hs.caught.extracts hs.toBecomes hsuits hgap hw).shows hmem
    exact ⟨Nat.lt_of_lt_of_le hlt hstop, hshows⟩
  · exact hs.whole (hold.symm.trans hb)

theorem stored_of_scanned {x : Nat} (hx : x < stop) (hne : c.touching base.owned x ≠ []) :
    w.store.blocks.at? x ≠ none := by
  rcases hw.at?_cases x with ⟨block, -, -, hnew⟩ | ⟨hnone, hold⟩
  · rw [hnew]
    exact Option.some_ne_none block
  · by_cases hbefore : x < a.resumeAt
    · rw [hold]
      exact hs.caught.stored x hbefore hne
    · obtain ⟨block, hmem, hheight⟩ := (hs.caught.extracts hs.toBecomes hsuits hgap hw).exists_block
        x (Nat.not_lt.1 hbefore) hx hne
      exact absurd hheight (hnone block hmem)

/-- The next pass resumes no later than where the scan ended. -/
theorem resumeAt_le_of_scanned (hlo : a.resumeAt ≤ stop) {b : Account}
    (hstable : b.stable = w.store)
    (hload : b.checkpoints.load b.disk = a.checkpoints.load a.disk) : b.resumeAt ≤ stop := by
  obtain ⟨saved, hsaved⟩ := hs.placed.load
  -- a checkpoint stays where it is; without one the last stored block counts, which the scan may move
  cases saved with
  | some checkpoint =>
      calc b.resumeAt = a.resumeAt := by rw [resumeAt, resumeAt, hload, hsaved]
        _ ≤ stop := hlo
  | none =>
      have hkeys : ∀ {x block}, b.stable.blocks.at? x = some block → block.height = x := by
        intro x block hblock
        rw [hstable] at hblock
        rcases hw.at?_cases x with ⟨block', -, rfl, hnew⟩ | ⟨-, hold⟩
        · rw [Option.some.inj (hnew.symm.trans hblock)]
        · exact hs.keys (hold.symm.trans hblock)
      have hresume : a.resumeAt = (Action.storedStart a).2 := by rw [resumeAt, hsaved]
      rw [resumeAt, hload, hsaved]
      show (Action.storedStart b).2 ≤ stop
      rcases storedStart_cases hkeys with hnone | ⟨block, hat, hstart⟩
      · rw [hnone]
        exact Nat.zero_le stop
      · rw [hstart]
        rw [hstable] at hat
        rcases hw.at?_cases block.height with ⟨block', hmem, hheight, -⟩ | ⟨-, hold⟩
        · have hlt :=
            ((hs.caught.extracts hs.toBecomes hsuits hgap hw).shows hmem).2.1
          exact hheight ▸ Nat.le_of_lt hlt
        · exact Nat.le_trans (le_storedStart (hold.symm.trans hat) hs.keys) (hresume ▸ hlo)

/-- **A scan of the stable window keeps the account sound**, wherever it ends, and up to there
everything is known. -/
theorem scan (hlo : a.resumeAt ≤ stop) (hstop : stop ≤ c.final base.config.unstableDepth.toNat) :
    Sound base c (a.ofWindow w) ∧ base.Caught c stop (a.ofWindow w) := by
  have hstable := a.stable_ofWindow hw.kind
  obtain ⟨hplaced, hload⟩ := hs.placed.scan hw
  have hcaught : base.Caught c stop (a.ofWindow w) := by
    refine ⟨fun x hx hne => ?_, fun haddress hx htouched => ?_⟩
    · rw [hstable]
      exact hs.stored_of_scanned hsuits hgap hw hx hne
    · exact hs.caught.known_of_scanned hs.toBecomes hsuits hgap hw haddress hx htouched
  have hresume : (a.ofWindow w).resumeAt ≤ stop :=
    hs.resumeAt_le_of_scanned hsuits hgap hw hlo hstable hload
  refine ⟨⟨becomes_ofWindow hs.toBecomes hw, hplaced, ?_, Nat.le_trans hresume hstop,
    hcaught.mono hresume, ?_⟩, hcaught⟩
  · rw [hstable]
    exact hs.whole_of_scanned hsuits hgap hw hstop
  · rw [a.unstable_ofWindow_of_stable hw.kind]
    exact hs.unstable

end Sound

end Scan
end Account
end WatchWallet
