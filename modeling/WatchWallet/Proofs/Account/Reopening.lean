import Mathlib.Data.List.Flatten
import WatchWallet.Main
import WatchWallet.Proofs.Account.Convergence
import WatchWallet.Proofs.Account.Restart

/-!
# Account — Reopening

The account of a configuration is opened from its files.  From a disk without files of an account it is
empty (`sound_of_openAccount`), and after any passes it is found with the stored blocks and the
checkpoint, but no address is known to be used (`openAccount_eq`).
-/

namespace WatchWallet

/-! ### Sizes -/

theorem FilledBlock.length_binary_write (b : FilledBlock) : (binary.write b).length =
    (Block.binary.write b.header).length + 8 +
      (b.transactions.flatMap Transaction.binary.write).length := by
  simp [binary, Binary.Format.map, Binary.Format.pair, Binary.Format.list, Binary.Format.unit, parts,
    Nat.add_assoc]

/-- A block that shows some of the transactions takes no more bytes than the whole block. -/
theorem Blockchain.Shows.length_binary_write_le {c : Blockchain} {addresses : List String} {h : Nat}
    {b : FilledBlock} (hb : c.Shows addresses h b) : ∃ block ∈ c.blocks,
      (FilledBlock.binary.write b).length ≤ (FilledBlock.binary.write block).length := by
  obtain ⟨block, hblock, hheader⟩ := Option.map_eq_some_iff.1 hb.header
  have hmined : c.mined h = block.transactions := by
    rw [mined, hblock]
    rfl
  refine ⟨block, List.mem_of_getElem? hblock, ?_⟩
  rw [FilledBlock.length_binary_write, FilledBlock.length_binary_write, hheader]
  refine Nat.add_le_add_left ?_ _
  calc (b.transactions.flatMap Transaction.binary.write).length
      = ((c.touching addresses h).flatMap Transaction.binary.write).length :=
        (hb.perm.flatMap_right _).length_eq
    _ ≤ (block.transactions.flatMap Transaction.binary.write).length := by
        rw [touching, hmined]
        exact (List.filter_sublist.flatMap _).length_le

/-! ### A new directory -/

/-- No change of the disk fails, and a directory of it, if it is there, holds no file of an account:
none named for a height and no checkpoint. -/
structure Disk.Unused (d : Disk) (dir : Path) : Prop where
  done : d.outcomes = []
  block : ∀ name n, (dir ++ [name], n) ∈ d.nodes →
    BlockFile.height? name = none ∧ ∀ h, name ≠ BlockFile.name h
  checkpoint : ∀ n, (dir ++ [CheckpointStore.fileName], n) ∉ d.nodes

/-- A store that is opened in an unused directory is empty. -/
theorem FileStore.openAt_of_unused {dir : Path} {d d' : Disk} {s : FileStore} (hunused : d.Unused dir)
    (hopen : openAt dir d = (.ok s, d')) : s.dir = dir ∧ s.dirty = ∅ ∧ (∀ h, s.blocks.at? h = none) ∧
      s.Files d' (fun _ => False) ∧ d'.outcomes = [] ∧ CheckpointStore.Saved d' dir none := by
  obtain ⟨hmade, names, blocks, hlist, hload, rfl⟩ := openAt_ok hopen
  obtain ⟨houtcomes, hdir, hmem⟩ := Disk.createDirectories_ok hmade
  -- what is in the directory now was there before: only ways to it were made
  have hold : ∀ {name n}, (dir ++ [name], n) ∈ d'.nodes → (dir ++ [name], n) ∈ d.nodes :=
    fun {name n} hn => (hmem _ n hn).resolve_left (Disk.append_not_mem_ancestors dir name)
  have habsent : ∀ {name}, (∀ n, (dir ++ [name], n) ∉ d.nodes) → d'.node? (dir ++ [name]) = none := by
    intro name hnone
    by_contra hne
    obtain ⟨n, hn⟩ := Disk.exists_mem_of_node?
      (List.append_ne_nil_of_right_ne_nil _ (List.cons_ne_nil _ _)) hne
    exact hnone n (hold hn)
  have hempty : ∀ h, blocks.at? h = none := by
    obtain ⟨names', hlist', hnames⟩ := Disk.mem_list hdir.node?
    obtain rfl := Except.ok.inj (hlist.symm.trans hlist')
    have hholds : ∀ n ∈ names, BlockFile.Holds d' dir .empty n := by
      intro n hn h hheight
      obtain ⟨node, hnode⟩ := (hnames n).1 hn
      cases (hunused.block n node (hold hnode)).1.symm.trans hheight
    obtain ⟨loaded, hloaded, hat⟩ := BlockFile.load_eq hholds fun h block hblock => by
      cases (Blocks.at?_empty h).symm.trans hblock
    obtain rfl := Except.ok.inj (hload.symm.trans hloaded)
    exact fun h => (hat h).trans (Blocks.at?_empty h)
  refine ⟨rfl, rfl, hempty, ⟨hdir, fun k _ => ?_, fun _ => False.elim, ?_⟩, houtcomes.trans hunused.done,
    habsent hunused.checkpoint⟩
  · show d'.node? (dir ++ [BlockFile.name k]) = (blocks.at? k).map _
    rw [hempty, habsent fun n hn => (hunused.block _ n hn).2 k rfl]
    rfl
  · intro name n hn k hheight
    cases (hunused.block name n (hold hn)).1.symm.trans hheight

namespace CommandLine

/-- The account of a configuration as it is opened, with blocks that are found on a disk. -/
def opened (config : AppConfig) (blocks : Blocks) (disk : Disk) : Account where
  config := config.sync
  chains := ⟨.ofList config.receiveAddresses 0, .ofList config.changeAddresses 0⟩
  stable := .file ⟨storeDir, blocks, ∅⟩
  unstable := .memory .empty
  pending := []
  checkpoints := .file storeDir
  disk := disk
  journal := []

variable {config : AppConfig} {disk : Disk} {a start : Account} {c : Blockchain}

/-- **An account that is opened in an unused directory is empty.** -/
theorem sound_of_openAccount (hunused : disk.Unused storeDir)
    (hopen : openAccount config disk = .ok start) :
    (∃ blocks d, start = opened config blocks d) ∧ start.Sound c start := by
  rcases hstore : FileStore.openAt storeDir disk with ⟨_ | s, d⟩
  · rw [openAccount, hstore] at hopen
    cases hopen
  · rw [openAccount, hstore] at hopen
    cases hopen
    obtain ⟨hdir, hdirty, hempty, hfiles, hdone, hsaved⟩ := FileStore.openAt_of_unused hunused hstore
    obtain ⟨-, names, blocks, -, -, rfl⟩ := FileStore.openAt_ok hstore
    refine ⟨⟨blocks, d, rfl⟩, Account.sound_of_empty ?_ ?_ hempty Blocks.at?_empty⟩
    · exact ⟨rfl, ⟨_, rfl⟩, hdone, ⟨_, rfl, rfl, rfl, hfiles⟩, none, hsaved⟩
    · exact hsaved.load hfiles.directory

/-- **An account is opened again** with the blocks that were stored, whatever becomes of later changes
of the disk. -/
theorem openAccount_eq (h : a.Filed storeDir)
    (hkeys : ∀ {h b}, a.stable.blocks.at? h = some b → b.height = h)
    (hfits : ∀ {h b}, a.stable.blocks.at? h = some b →
      (FilledBlock.binary.write b).length < UInt64.size) (outcomes : List Outcome) :
    openAccount config { a.disk with outcomes } =
      .ok (opened config a.stable.blocks { a.disk with outcomes }) := by
  obtain ⟨store, hstore, hdir, -, hfiles⟩ := h.stable
  rw [hstore] at hkeys hfits ⊢
  have hfiles' : store.Files { a.disk with outcomes } fun _ => False :=
    ⟨hfiles.directory, hfiles.written, hfiles.unwritten, hfiles.named⟩
  have hopen := FileStore.openAt_eq hfiles' hkeys hfits
  rw [hdir] at hopen
  rw [openAccount, hopen]
  rfl

/-- The search from a height on for the addresses of a configuration, of which some are known to be
used. -/
def search (config : AppConfig) (c : Blockchain) (lo : Nat) (used : Chain → Nat) : Search where
  blockchain := c
  addresses
    | .receive => config.receiveAddresses
    | .change => config.changeAddresses
  used := used
  gap := config.sync.gapSize.toNat
  lo := lo

/-- After it is opened, no address of an account is known to be used. -/
theorem search_opened (blocks : Blocks) (c : Blockchain) (lo : Nat) :
    (opened config blocks disk).search c lo = search config c lo fun _ => 0 := by
  have haddresses : (fun ch => ((opened config blocks disk).chains.get ch).addresses) =
      (search config c lo fun _ => 0).addresses := by
    funext ch
    cases ch <;> rfl
  have hused : (fun ch => ((opened config blocks disk).chains.get ch).used) = fun _ => 0 := by
    funext ch
    cases ch <;> rfl
  show (⟨c, fun ch => ((opened config blocks disk).chains.get ch).addresses,
    fun ch => ((opened config blocks disk).chains.get ch).used, _, lo⟩ : Search) = _
  rw [haddresses, hused]
  rfl

/-- What a pass that succeeds leaves of an account that was opened in an unused directory. -/
theorem settled_of_synchronize {σ : Type} {explorer : Explorer σ} {now : Instant} {page : Nat}
    {s s' : σ} {stats : SyncStats} {last : Option Blockchain} {a' : Account}
    (hvalid : config.sync.validate = .ok ()) (hunused : disk.Unused storeDir)
    (hopen : openAccount config disk = .ok start) (hhistory : start.History last a)
    (hfollows : ∀ b ∈ last, b.Follows config.sync.unstableDepth.toNat c) (hsuits : start.Suits c)
    (hpage : 1 ≤ page) (hhonest : explorer.Honest c page)
    (hrun : (Action.synchronize explorer now).perform a s = (.ok stats, a', s')) :
    ∃ blocks d, start = opened config blocks d ∧ start.Sound c a' ∧ start.Settled c a' := by
  have hvalid := SyncConfig.validate_eq_ok_iff.1 hvalid
  obtain ⟨⟨blocks, d, rfl⟩, -⟩ := sound_of_openAccount (c := c) hunused hopen
  have hstart : ∀ c, (opened config blocks d).Sound c (opened config blocks d) :=
    fun c => (sound_of_openAccount hunused hopen).2
  have hs : (opened config blocks d).Sound c a :=
    Action.sound_of_history hvalid hstart hhistory hfollows
  have hpass : Action.Ensures ((opened config blocks d).Sound c)
      (Action.synchronize explorer now) _ _ :=
    Action.ensures_synchronize hpage hhonest hvalid hsuits
  exact ⟨blocks, d, rfl, hpass.of_ok hs hrun⟩

/-- **A settled account is opened again** where it stopped, also when the chain has grown. -/
theorem resumes_of_settled {next : Blockchain} {found : Blocks} {d : Disk}
    (hs : (opened config found d).Sound c a) (hsettled : (opened config found d).Settled c a)
    (hfits : ∀ block ∈ c.blocks, (FilledBlock.binary.write block).length < UInt64.size)
    (hgrown : c.Follows 0 next) (outcomes : List Outcome) :
    openAccount config { a.disk with outcomes } =
        .ok (opened config a.stable.blocks { a.disk with outcomes }) ∧
      (opened config a.stable.blocks { a.disk with outcomes }).Resumes next
        (c.final config.sync.unstableDepth.toNat) := by
  have hfiled : a.Filed storeDir := hs.placed
  have hfits' : ∀ {h b}, a.stable.blocks.at? h = some b →
      (FilledBlock.binary.write b).length < UInt64.size := by
    intro h b hb
    obtain ⟨block, hmem, hle⟩ := (hs.whole hb).2.length_binary_write_le
    exact Nat.lt_of_le_of_lt hle (hfits block hmem)
  refine ⟨openAccount_eq hfiled hs.keys hfits' outcomes,
    hs.resumes hsettled.resumeAt_eq hgrown rfl (fun _ => rfl) ?_⟩
  -- the checkpoint is read from the same file
  obtain ⟨saved, hsaved, hload⟩ := hfiled.load
  obtain ⟨store, -, hdir, -, hfiles⟩ := hfiled.stable
  rw [hload]
  exact CheckpointStore.Saved.load hsaved (hdir ▸ hfiles.directory)

end CommandLine

namespace Action
open CommandLine hiding synchronize
open Window (paymentBlock)

variable {σ : Type} {explorer : Explorer σ} {config : AppConfig} {disk : Disk} {start a : Account}
  {last : Option Blockchain} {c next : Blockchain} {page : Nat} {now : Instant}

/-- **After a restart the searches start over.**  A pass that succeeds leaves an account that is opened
again when the program is restarted and the chain has grown.  The next pass that succeeds keeps in the
stable store all that touches the account at the final heights exactly when a search from the
checkpoint on finds all that is there, although it knows of no used address; and in the unstable store
exactly when a search above the final heights does, which knows what the first one has found. -/
theorem kept_iff_of_reopened {s s' : σ} {stats : SyncStats} {a' : Account}
    (hvalid : config.sync.validate = .ok ()) (hunused : disk.Unused storeDir)
    (hopen : openAccount config disk = .ok start) (hhistory : start.History last a)
    (hfollows : ∀ b ∈ last, b.Follows config.sync.unstableDepth.toNat c) (hsuits : start.Suits c)
    (hpage : 1 ≤ page) (hhonest : explorer.Honest c page)
    (hfits : ∀ block ∈ c.blocks, (FilledBlock.binary.write block).length < UInt64.size)
    (hrun : (synchronize explorer now).perform a s = (.ok stats, a', s'))
    (hgrown : c.Follows 0 next) (outcomes : List Outcome) :
    let owned := config.receiveAddresses ++ config.changeAddresses
    let lo := c.blocks.length - config.sync.unstableDepth.toNat
    let stop := next.blocks.length - config.sync.unstableDepth.toNat
    ∃ b, openAccount config { a'.disk with outcomes } = .ok b ∧
      ∀ {τ : Type} {explorer' : Explorer τ} {now' : Instant} {page' : Nat} {t t' : τ}
        {stats' : SyncStats} {b' : Account}, 1 ≤ page' → explorer'.Honest next page' →
        (synchronize explorer' now').perform b t = (.ok stats', b', t') →
        ∃ used, (search config next lo fun _ => 0).Counts stop used ∧
          (next.Kept owned 0 stop b'.stable.blocks.toList ↔
            (search config next lo fun _ => 0).FindsAll stop) ∧
          (next.Kept owned stop next.blocks.length b'.unstable.blocks.toList ↔
            (search config next stop used).FindsAll next.blocks.length) := by
  intro owned lo stop
  obtain ⟨found, d, rfl, hs, hsettled⟩ :=
    settled_of_synchronize hvalid hunused hopen hhistory hfollows hsuits hpage hhonest hrun
  have hvalid := SyncConfig.validate_eq_ok_iff.1 hvalid
  obtain ⟨hreopen, hresumes⟩ := resumes_of_settled hs hsettled hfits hgrown outcomes
  refine ⟨_, hreopen, fun {τ explorer' now' page' t t' stats' b'} hpage' hhonest' hrun' => ?_⟩
  have hlo : lo ≤ next.final config.sync.unstableDepth.toNat :=
    Nat.sub_le_sub_right hgrown.length_le _
  have hgenesis : next.StartsAt (some config.sync.genesisHash) 0 := hgrown.startsAt hsuits.genesis
  have hnext : Ensures (· = opened config a'.stable.blocks { a'.disk with outcomes })
      (synchronize explorer' now') _ _ :=
    ensures_synchronize_of_resumes hpage' hhonest' hvalid hgenesis hresumes hlo
  obtain ⟨used, hcounts, hstable, hunstable⟩ := hnext.of_ok rfl hrun'
  rw [search_opened] at hcounts hstable hunstable
  exact ⟨used, hcounts, hstable, hunstable⟩

/-- Each of two addresses is paid once, the second one in the last block. -/
def paidInTurn : Blockchain where
  blocks := [paymentBlock ⟨"g", 0, .epoch⟩ [], paymentBlock ⟨"b", 1, .epoch⟩ [("t", ["a"])],
    paymentBlock ⟨"c", 2, .epoch⟩ [("u", ["z"])]]
  heights := by decide
  nodup_hashes := by decide
  block_eq := by decide
  nodup_transactions := by decide

/-- The same payments, and a block after them. -/
def oneBlockLater : Blockchain where
  blocks := paidInTurn.blocks ++ [paymentBlock ⟨"d", 3, .epoch⟩ []]
  heights := by decide
  nodup_hashes := by decide
  block_eq := by decide
  nodup_transactions := by decide

/-- The configuration of the account with two addresses. -/
def twoAddressConfig : AppConfig where
  explorerUrl := "http://localhost"
  currency := "coin"
  requestTimeoutSecs := 30
  dataDir := "data"
  receiveAddresses := ["a", "z"]
  changeAddresses := []
  decimals := 8
  sync := twoAddressAccount.config

/-- From the last payment on, the first gap is not hit, so the second address is not looked at. -/
theorem not_findsAll_oneBlockLater :
    ¬(search twoAddressConfig oneBlockLater 2 fun _ => 0).FindsAll 3 := by
  intro hall
  have hmem : { hash := "u", block := some ⟨"c", 2, .epoch⟩, outputs := [{ address := some "z" }] } ∈
      oneBlockLater.touching ["a", "z"] 2 := List.mem_singleton.2 rfl
  obtain ⟨-, ch, i, address, hget, ⟨-, hused | hwatched⟩, htouches⟩ :=
    hall 2 _ (Nat.le_refl 2) (Nat.lt_succ_self 2) hmem
  · exact absurd hused (Nat.not_lt_zero i)
  · cases ch with
    | change => cases hget
    | receive =>
        match i, hget with
        | 0, rfl => cases htouches
        | 1, rfl =>
            obtain ⟨y, hle, hfirst, hhits⟩ := hwatched.passed (j := 0) Nat.one_pos
            obtain rfl : y = 2 := Nat.le_antisymm hle hfirst.lo_le
            exact hhits rfl

/-- The blocks of the chain fit into a file. -/
theorem length_binary_write_paidInTurn :
    ∀ block ∈ paidInTurn.blocks, (FilledBlock.binary.write block).length < UInt64.size := by
  have hall : paidInTurn.blocks.all
      (fun block => decide ((FilledBlock.binary.write block).length < 1000)) = true := by
    decide +kernel
  intro block hblock
  have hlength := of_decide_eq_true (List.all_eq_true.1 hall block hblock)
  exact Nat.lt_trans hlength (by decide)

/-- What is paid to the second address before the restart and is not yet final then, is lost: after the
restart a pass asks for the first address only, finds nothing, and moves the checkpoint on. -/
theorem kept_iff_of_reopened_oneBlockLater :
    ∃ start stats a, openAccount twoAddressConfig .empty = .ok start ∧
      (synchronize (paidInTurn.explorer 2) .epoch).perform start () = (.ok stats, a, ()) ∧
      ∃ b stats' b', openAccount twoAddressConfig { a.disk with outcomes := [] } = .ok b ∧
        (synchronize (oneBlockLater.explorer 2) .epoch).perform b () = (.ok stats', b', ()) ∧
        ¬oneBlockLater.Kept ["a", "z"] 0 3 b'.stable.blocks.toList := by
  have hruns : (openAccount twoAddressConfig .empty).toOption.map (fun start =>
      let first := (synchronize (paidInTurn.explorer 2) .epoch).perform start ()
      let reopened := opened twoAddressConfig first.2.1.stable.blocks
        { first.2.1.disk with outcomes := [] }
      (first.1.isOk, ((synchronize (oneBlockLater.explorer 2) .epoch).perform reopened ()).1.isOk)) =
        some (true, true) := by
    decide +kernel
  rcases hopen : openAccount twoAddressConfig .empty with _ | start <;> rw [hopen] at hruns
  · cases hruns
  obtain ⟨hfirst, hsecond⟩ := Prod.mk.inj (Option.some.inj hruns)
  rcases hrun : (synchronize (paidInTurn.explorer 2) .epoch).perform start () with
    ⟨_ | stats, a, ⟨⟩⟩ <;> rw [hrun] at hfirst hsecond
  · cases hfirst
  rcases hrun' : (synchronize (oneBlockLater.explorer 2) .epoch).perform
      (opened twoAddressConfig a.stable.blocks { a.disk with outcomes := [] }) () with
    ⟨_ | stats', b', ⟨⟩⟩ <;> rw [hrun'] at hsecond
  · cases hsecond
  have hunused : Disk.empty.Unused storeDir :=
    ⟨rfl, fun _ _ hn => absurd hn List.not_mem_nil, fun _ => List.not_mem_nil⟩
  obtain ⟨⟨blocks, disk, rfl⟩, -⟩ := sound_of_openAccount (c := paidInTurn) hunused hopen
  have hsuits : (opened twoAddressConfig blocks disk).Suits paidInTurn := by
    obtain ⟨hgenesis, hregular⟩ : twoAddressAccount.Suits paidInTurn := suits_twoAddressAccount
      ⟨_, rfl, rfl⟩ rfl (List.mem_singleton.2 rfl) (by decide) (List.mem_singleton.2 rfl) (by decide)
      rfl
    exact ⟨hgenesis, hregular⟩
  have hhonest := paidInTurn.honest_explorer 2
  have hgrown : paidInTurn.Follows 0 oneBlockLater := by
    refine ⟨by decide, fun {h} hh => ?_⟩
    have hlt : h < 3 := hh
    obtain rfl | rfl | rfl : h = 0 ∨ h = 1 ∨ h = 2 := by omega
    all_goals rfl
  have hnone : ∀ b ∈ (none : Option Blockchain), b.Follows 1 paidInTurn :=
    fun b hb => absurd hb (Option.not_mem_none b)
  obtain ⟨-, -, -, hs, hsettled⟩ := settled_of_synchronize rfl hunused hopen .start hnone hsuits
    (Nat.le_succ 1) hhonest hrun
  obtain ⟨hreopen, -⟩ := resumes_of_settled hs hsettled length_binary_write_paidInTurn hgrown []
  refine ⟨_, stats, a, rfl, hrun, _, stats', b', hreopen, hrun', fun hkept => ?_⟩
  obtain ⟨b, hb, hall⟩ := kept_iff_of_reopened rfl hunused hopen .start hnone hsuits (Nat.le_succ 1)
    hhonest length_binary_write_paidInTurn hrun hgrown []
  obtain rfl := Except.ok.inj (hreopen.symm.trans hb)
  obtain ⟨used, -, hstable, -⟩ := hall (Nat.le_succ 1) (oneBlockLater.honest_explorer 2) hrun'
  exact not_findsAll_oneBlockLater (hstable.1 hkept)

end Action
end WatchWallet
