import WatchWallet.Proofs.Account.Pass

/-!
# Account — Restart

What a pass finds that starts from stored blocks and a checkpoint, with whatever addresses are known to
be used.  It is complete exactly when a search from the checkpoint on finds everything, and another one
from the last final height on, with the addresses known to be used then.
-/

namespace WatchWallet

/-- The search finds everything below a height that touches the addresses. -/
def Search.FindsAll (s : Search) (stop : Nat) : Prop :=
  ∀ x tx, s.lo ≤ x → x < stop →
    tx ∈ s.blockchain.touching (s.addresses .receive ++ s.addresses .change) x → s.Found x tx

/-- Each transaction that touches the addresses at heights from one on and below another stands in a
block at its height. -/
def Blockchain.Kept (c : Blockchain) (addresses : List String) (lo stop : Nat)
    (blocks : List FilledBlock) : Prop :=
  ∀ x tx, lo ≤ x → x < stop → tx ∈ c.touching addresses x →
    ∃ b ∈ blocks, b.height = x ∧ tx ∈ b.transactions

/-- The transaction stands in the block at a height. -/
def Blocks.Holds (b : Blocks) (x : Nat) (tx : Transaction) : Prop :=
  ∃ block, b.at? x = some block ∧ tx ∈ block.transactions

theorem Blocks.kept_iff {b : Blocks} {c : Blockchain} {addresses : List String} {lo stop : Nat}
    (hkeys : ∀ {h block}, b.at? h = some block → block.height = h) :
    c.Kept addresses lo stop b.toList ↔
      ∀ x tx, lo ≤ x → x < stop → tx ∈ c.touching addresses x → b.Holds x tx := by
  have hmem : ∀ {x tx}, (∃ block ∈ b.toList, block.height = x ∧ tx ∈ block.transactions) ↔
      b.Holds x tx := by
    intro x tx
    constructor
    · rintro ⟨block, hblock, rfl, htx⟩
      obtain ⟨h, hat⟩ := mem_toList.1 hblock
      obtain rfl := hkeys hat
      exact ⟨block, hat, htx⟩
    · rintro ⟨block, hat, htx⟩
      exact ⟨block, mem_toList.2 ⟨x, hat⟩, hkeys hat, htx⟩
  simp only [Blockchain.Kept, hmem]

/-- What is stored after a scan is what was stored before it and what its search has found. -/
theorem Window.Scanned.holds_iff {v w : Window} {s : Search} {stop : Nat} {blocks : List FilledBlock}
    (hw : v.Scanned s stop blocks w) {x : Nat} {tx : Transaction} (hx : x < stop)
    (hempty : s.lo ≤ x → v.store.blocks.at? x = none) : w.store.blocks.Holds x tx ↔
      x < s.lo ∧ v.store.blocks.Holds x tx ∨ s.lo ≤ x ∧ s.Found x tx := by
  rcases hw.at?_cases x with ⟨block, hmem, hheight, hnew⟩ | ⟨hnone, hold⟩
  · -- the block of the scan is the only one at its height
    have hunique : ∀ {tx}, tx ∈ block.transactions ↔ s.lo ≤ x ∧ x < stop ∧ s.Found x tx := by
      intro tx
      rw [← hw.delivers.mem_iff]
      refine ⟨fun htx => ⟨block, hmem, hheight, htx⟩, fun ⟨block', hmem', hheight', htx⟩ => ?_⟩
      have hheights : (blocks.map FilledBlock.height).Nodup :=
        hw.delivers.ascending.imp Nat.ne_of_lt
      obtain rfl := List.inj_on_of_nodup_map hheights hmem' hmem (hheight'.trans hheight.symm)
      exact htx
    obtain ⟨tx', htx'⟩ := List.exists_mem_of_ne_nil _ (hw.delivers.block block hmem).1
    have hlo := (hunique.1 htx').1
    constructor
    · rintro ⟨block', hat, htx⟩
      obtain rfl := Option.some.inj (hnew.symm.trans hat)
      exact .inr ⟨hlo, (hunique.1 htx).2.2⟩
    · rintro (⟨hlt, -⟩ | ⟨-, hfound⟩)
      · exact absurd hlt (Nat.not_lt.2 hlo)
      · exact ⟨block, hnew, hunique.2 ⟨hlo, hx, hfound⟩⟩
  · rw [Blocks.Holds, hold]
    constructor
    · rintro ⟨block, hat, htx⟩
      refine .inl ⟨?_, block, hat, htx⟩
      by_contra hlo
      rw [hempty (Nat.not_lt.1 hlo)] at hat
      cases hat
    · rintro (⟨-, hholds⟩ | ⟨hlo, hfound⟩)
      · exact hholds
      · obtain ⟨block, hmem, hheight, -⟩ := hw.delivers.mem_iff.2 ⟨hlo, hx, hfound⟩
        exact absurd hheight (hnone block hmem)

namespace Account

/-- The search from a height on for the addresses of an account. -/
def search (a : Account) (c : Blockchain) (lo : Nat) : Search where
  blockchain := c
  addresses ch := (a.chains.get ch).addresses
  used ch := (a.chains.get ch).used
  gap := a.config.gapSize.toNat
  lo := lo

/-- The account holds exactly the blocks of the chain below a height that touch it, and its checkpoint
says so. -/
structure Resumes (a : Account) (c : Blockchain) (lo : Nat) : Prop where
  whole : ∀ {h b}, a.stable.blocks.at? h = some b → h < lo ∧ c.Shows a.owned h b
  stored : ∀ x, x < lo → c.touching a.owned x ≠ [] → a.stable.blocks.at? x ≠ none
  checkpoint : (∃ saved, a.checkpoints.load a.disk = .ok (some saved) ∧
      saved.height.toNat + 1 = lo) ∨
    a.checkpoints.load a.disk = .ok none ∧ lo = 0

/-- The account after its stable window: what is stored below a height is what was stored before and
what the search has found. -/
structure Resumed (a : Account) (c : Blockchain) (lo stop : Nat) (b : Account) : Prop where
  becomes : a.Becomes b
  keys : ∀ {h block}, b.stable.blocks.at? h = some block → block.height = h
  holds_iff : ∀ {x tx}, x < stop → (b.stable.blocks.Holds x tx ↔
    x < lo ∧ tx ∈ c.touching a.owned x ∨ lo ≤ x ∧ (a.search c lo).Found x tx)
  counts : (a.search c lo).Counts stop fun ch => (b.chains.get ch).used

variable {a b : Account} {c : Blockchain} {lo stop : Nat}

theorem Resumes.holds_iff (h : a.Resumes c lo) {x : Nat} {tx : Transaction} (hx : x < lo) :
    a.stable.blocks.Holds x tx ↔ tx ∈ c.touching a.owned x := by
  constructor
  · rintro ⟨block, hat, htx⟩
    exact (h.whole hat).2.perm.mem_iff.1 htx
  · intro htx
    obtain ⟨block, hat⟩ := Option.ne_none_iff_exists'.1 (h.stored x hx (List.ne_nil_of_mem htx))
    exact ⟨block, hat, (h.whole hat).2.perm.mem_iff.2 htx⟩

/-- An account whose stores hold what those of a settled account hold goes on where that one stopped,
also on a longer chain. -/
theorem Sound.resumes {base : Account} {next : Blockchain} (hs : Sound base c a)
    (hresume : a.resumeAt = c.final base.config.unstableDepth.toNat)
    (hgrown : Blockchain.Follows 0 c next) (howned : b.owned = base.owned)
    (hat : ∀ h, b.stable.blocks.at? h = a.stable.blocks.at? h)
    (hload : b.checkpoints.load b.disk = a.checkpoints.load a.disk) :
    b.Resumes next (c.final base.config.unstableDepth.toNat) := by
  have hold : ∀ {x}, x < c.final base.config.unstableDepth.toNat → x < c.final 0 :=
    fun hx => Nat.lt_of_lt_of_le hx (Nat.sub_le_sub_left (Nat.zero_le _) _)
  refine ⟨fun {h block} hb => ?_, fun x hx hne => ?_, ?_⟩
  · rw [hat] at hb
    obtain ⟨hlt, hshows⟩ := hs.whole hb
    exact ⟨hlt, howned ▸ hshows.follows hgrown (hold hlt)⟩
  · rw [howned, hgrown.touching_eq (hold hx)] at hne
    rw [hat]
    exact hs.caught.stored x (hresume ▸ hx) hne
  · obtain ⟨saved, hsaved⟩ := hs.placed.load
    rw [hload, hsaved]
    cases saved with
    | some checkpoint => exact .inl ⟨checkpoint, rfl, by rw [← hresume, resumeAt, hsaved]⟩
    | none =>
        refine .inr ⟨rfl, ?_⟩
        -- nothing is stored, as the stored blocks lie below the height at which the last is read again
        have hstart : a.resumeAt = (Action.storedStart a).2 := by rw [resumeAt, hsaved]
        rcases storedStart_cases hs.keys with hnone | ⟨block, hblock, hlast⟩
        · rw [← hresume, hstart, hnone]
        · rw [hlast] at hstart
          have hlt := (hs.whole hblock).1
          rw [← hresume, hstart] at hlt
          exact absurd hlt (Nat.lt_irrefl _)

/-- Nothing is found before a search starts. -/
theorem counts_self (s : Search) (hstop : stop ≤ s.lo) : s.Counts stop s.used := by
  refine fun c k => ⟨fun hused => ⟨hused, fun hfound hx _ _ => ?_⟩, fun h => h.1⟩
  obtain ⟨-, i, a, -, hseen, -⟩ := hfound
  exact absurd (Nat.lt_of_lt_of_le hx hstop) (Nat.not_lt.2 hseen.1)

/-- Without final blocks beyond the checkpoint nothing happens to the stable side. -/
theorem Resumes.resumed (h : a.Resumes c lo) : a.Resumed c lo lo a := by
  refine ⟨⟨rfl, fun _ => rfl⟩, fun hb => (h.whole hb).2.height_eq, fun {x tx} hx => ?_,
    counts_self (a.search c lo) (Nat.le_refl lo)⟩
  rw [h.holds_iff hx]
  exact ⟨fun htx => .inl ⟨hx, htx⟩, fun h => h.elim (·.2) fun h => absurd hx (Nat.not_lt.2 h.1)⟩

/-- The stable window is resumed by a scan from the checkpoint on. -/
theorem Resumes.scanned (h : a.Resumes c lo) {blocks : List FilledBlock} {w : Window}
    (hw : (a.window .stable).Scanned (a.search c lo) stop blocks w)
    (hcounts : (a.search c lo).Counts stop fun ch => (w.chains.get ch).used) :
    a.Resumed c lo stop (a.ofWindow w) := by
  have hstable := a.stable_ofWindow hw.kind
  refine ⟨⟨a.config_ofWindow w, hw.addresses⟩, fun {x block} hb => ?_, fun {x tx} hx => ?_, hcounts⟩
  · rw [hstable] at hb
    rcases hw.at?_cases x with ⟨block', -, rfl, hnew⟩ | ⟨-, hold⟩
    · rw [Option.some.inj (hnew.symm.trans hb)]
    · exact (h.whole (hold.symm.trans hb)).2.height_eq
  · rw [hstable, hw.holds_iff hx fun hlo => ?_]
    · refine or_congr_left (and_congr_right fun hlt => ?_)
      exact h.holds_iff hlt
    · show a.stable.blocks.at? x = none
      by_contra hne
      obtain ⟨block, hat⟩ := Option.ne_none_iff_exists'.1 hne
      exact absurd (h.whole hat).1 (Nat.not_lt.2 hlo)

/-- The stable store is complete exactly when the search from the checkpoint on finds everything. -/
theorem Resumed.kept_iff (h : a.Resumed c lo stop b) :
    c.Kept a.owned 0 stop b.stable.blocks.toList ↔ (a.search c lo).FindsAll stop := by
  rw [Blocks.kept_iff h.keys]
  constructor
  · intro hall x tx hlo hx htx
    rcases (h.holds_iff hx).1 (hall x tx (Nat.zero_le x) hx htx) with ⟨hlt, -⟩ | ⟨-, hfound⟩
    · exact absurd hlt (Nat.not_lt.2 hlo)
    · exact hfound
  · intro hall x tx _ hx htx
    refine (h.holds_iff hx).2 ?_
    by_cases hlt : x < lo
    · exact .inl ⟨hlt, htx⟩
    · exact .inr ⟨Nat.not_lt.1 hlt, hall x tx (Nat.not_lt.1 hlt) hx htx⟩

/-- The search of the unstable window goes by the counts that the stable window has left. -/
theorem Becomes.window_search (h : a.Becomes b) (kind : WindowKind) :
    (b.window kind).search b.config c lo =
      { a.search c lo with used := fun ch => (b.chains.get ch).used } := by
  have haddresses : (fun ch => (b.chains.get ch).addresses) =
      fun ch => (a.chains.get ch).addresses := funext h.addresses
  show (⟨c, fun ch => (b.chains.get ch).addresses, _, b.config.gapSize.toNat, lo⟩ : Search) = _
  rw [haddresses, h.config]
  rfl

/-- The account after both windows: each store is complete exactly when its search finds everything,
the one from the checkpoint on and the one from the last final height on. -/
def Rebuilt (a : Account) (c : Blockchain) (lo stop length : Nat) (b : Account) : Prop :=
  ∃ used, (a.search c lo).Counts stop used ∧
    (c.Kept a.owned 0 stop b.stable.blocks.toList ↔ (a.search c lo).FindsAll stop) ∧
    (c.Kept a.owned stop length b.unstable.blocks.toList ↔
      Search.FindsAll { a.search c stop with used } length)

/-- The unstable window is rebuilt by a scan into an empty store. -/
theorem Resumed.rebuilt (h : a.Resumed c lo stop b) (hempty : ∀ h, b.unstable.blocks.at? h = none)
    {length : Nat} {blocks : List FilledBlock} {w : Window}
    (hw : (b.window .unstable).Scanned ((b.window .unstable).search b.config c stop) length blocks w) :
    a.Rebuilt c lo stop length (b.ofWindow w) := by
  refine ⟨_, h.counts, ?_, ?_⟩
  · rw [b.stable_ofWindow_of_unstable hw.kind]
    exact h.kept_iff
  · have hkeys : ∀ {x block}, w.store.blocks.at? x = some block → block.height = x := by
      intro x block hb
      rcases hw.at?_cases x with ⟨block', -, rfl, hnew⟩ | ⟨-, hold⟩
      · rw [Option.some.inj (hnew.symm.trans hb)]
      · cases (hempty x).symm.trans (hold.symm.trans hb)
    have howned : a.owned = ((b.window .unstable).search b.config c stop).addresses .receive ++
        ((b.window .unstable).search b.config c stop).addresses .change := h.becomes.owned_eq.symm
    rw [b.unstable_ofWindow hw.kind, Blocks.kept_iff hkeys, ← h.becomes.window_search .unstable,
      howned]
    refine forall_congr' fun x => forall_congr' fun tx => forall_congr' fun hlo =>
      forall_congr' fun hx => imp_congr_right fun _ => ?_
    rw [hw.holds_iff hx fun _ => hempty x]
    exact ⟨fun hor => hor.elim (fun h => absurd h.1 (Nat.not_lt.2 hlo)) (·.2), fun hfound =>
      .inr ⟨hlo, hfound⟩⟩

/-- Without heights above the final ones there is nothing to keep of them. -/
theorem Resumed.rebuilt_self (h : a.Resumed c lo stop b) : a.Rebuilt c lo stop stop b :=
  ⟨_, h.counts, h.kept_iff, fun _ _ _ hlo hx => absurd hx (Nat.not_lt.2 hlo),
    fun _ _ _ hlo hx => absurd hx (Nat.not_lt.2 hlo)⟩

end Account

namespace Action

variable {σ : Type} {explorer : Explorer σ} {a : Account} {c : Blockchain} {page lo hi : Nat}
  {start : String} {now : Instant}

section

variable (hpage : 1 ≤ page) (hhonest : explorer.Honest c page) (hvalid : a.config.Valid)
  (hgenesis : c.StartsAt (some a.config.genesisHash) 0)
include hpage hhonest hvalid hgenesis

theorem ensures_scanStable_of_resumes (h : a.Resumes c lo) (hle : lo ≤ hi)
    (hstart : c.StartsAt (some start) lo) :
    Ensures (· = a) (scanStable explorer now start lo hi) (fun _ b => a.Resumed c lo (hi + 1) b)
      fun _ _ => True := by
  have hscan : Ensures (· = a) (synchronizeWindow explorer .stable start lo hi)
      (fun _ b => a.Resumed c lo (hi + 1) b) fun _ _ => True := by
    refine (ensures_synchronizeWindow (P := (· = a)) (E := fun _ => True) hpage hhonest hstart hle
      (fun b hb => hb ▸ hvalid) fun {b stop blocks w} hb _ _ hw =>
        ⟨trivial, fun hstop hcounts => ?_⟩).failing fun _ _ => trivial
    obtain rfl := hb
    obtain rfl := hstop
    exact h.scanned hw hcounts
  refine hscan.bind fun stats => ?_
  refine ((ensures_blockHashAt hhonest (fun b hb => ?_) hi).failing fun _ _ => trivial).bind
    fun hash => ?_
  · exact hb.becomes.config ▸ hgenesis
  refine Ensures.bind (Q := fun _ b => a.Resumed c lo (hi + 1) b) (fun b s hb => ?_) fun _ =>
    .pure fun b hb => hb
  rw [perform_saveCheckpoint]
  cases (b.checkpoints.save ⟨hi.toUInt32, hash, now⟩ b.disk).1 with
  | error e => trivial
  | ok _ => exact ⟨⟨hb.1.becomes.config, hb.1.becomes.addresses⟩, hb.1.keys, hb.1.holds_iff, hb.1.counts⟩

/-- The stable window of a pass goes on where the checkpoint says. -/
theorem ensures_synchronizeStable_of_resumes (h : a.Resumes c lo) (hle : lo ≤ hi + 1) :
    Ensures (· = a) (synchronizeStable explorer now hi)
      (fun _ b => a.Resumed c lo (hi + 1) b) fun _ _ => True := by
  have hgenesis' : ∀ b, b = a → c.StartsAt (some b.config.genesisHash) 0 := fun b hb => hb ▸ hgenesis
  have hload : ∀ {saved}, a.checkpoints.load a.disk = .ok saved →
      Ensures (· = a) (loadCheckpoint : Action σ _) (fun found b => b = a ∧ found = saved)
        fun _ _ => True := by
    rintro saved hsaved b s rfl
    rw [perform_loadCheckpoint, hsaved]
    exact ⟨rfl, rfl⟩
  -- the window goes on above the checkpoint, and at the genesis block if there is none
  rcases h.checkpoint with ⟨saved, hsaved, hheight⟩ | ⟨hnone, rfl⟩
  · refine (hload hsaved).bind fun found => .of_and fun hfound => ?_
    subst hfound
    refine ((Ensures.heightAfter saved).failing fun _ _ => trivial).bind fun next => ?_
    refine (Ensures.of_and ?_).mono (fun _ h => h) (fun _ _ h => h) fun _ h => h
    rintro ⟨hnext, -⟩
    obtain rfl : lo = next := (hnext.trans hheight).symm
    split
    · refine .pure fun b hb => ?_
      obtain rfl := hb
      obtain rfl : lo = hi + 1 := by omega
      exact h.resumed
    · rename_i hlt
      refine ((ensures_blockHashAt hhonest hgenesis' lo).failing fun _ _ => trivial).bind
        fun hash => .of_and fun hstart => ?_
      exact ensures_scanStable_of_resumes hpage hhonest hvalid hgenesis h (Nat.not_lt.1 hlt) hstart
  · refine (hload hnone).bind fun found => .of_and fun hfound => ?_
    subst hfound
    refine .get_bind fun b s hb => ?_
    obtain rfl := hb
    have hstart : storedStart b = (b.config.genesisHash, 0) := by
      rcases Account.storedStart_cases fun hb => (h.whole hb).2.height_eq with hstart | ⟨block, hat, -⟩
      · exact hstart
      · exact absurd (h.whole hat).1 (Nat.not_lt_zero _)
    dsimp only
    rw [hstart]
    exact ensures_scanStable_of_resumes hpage hhonest hvalid hgenesis h (Nat.zero_le hi) hgenesis

/-- The unstable window is rebuilt by a search with the counts that the stable window has left. -/
theorem ensures_rebuildUnstable_of_resumed {stop tip : Nat} (hle : stop ≤ tip) :
    Ensures (fun b => a.Resumed c lo stop b) (rebuildUnstable explorer stop tip)
      (fun _ b => a.Rebuilt c lo stop (tip + 1) b) fun _ _ => True := by
  have hclear : Ensures (fun b => a.Resumed c lo stop b) (clearUnstable : Action σ _)
      (fun _ b => a.Resumed c lo stop b ∧ ∀ h, b.unstable.blocks.at? h = none) fun _ _ => True := by
    intro b s hb
    rw [perform_clearUnstable]
    cases (b.unstable.removeFrom 0 b.disk).1 with
    | error e => trivial
    | ok _ =>
        refine ⟨⟨⟨hb.becomes.config, hb.becomes.addresses⟩, hb.keys, hb.holds_iff, hb.counts⟩,
          fun h => ?_⟩
        show (b.unstable.removeFrom 0 b.disk).2.1.blocks.at? h = none
        rw [BlockStore.blocks_removeFrom, Blocks.at?_below, if_neg (Nat.not_lt_zero h)]
  refine hclear.bind fun _ => ?_
  have hgenesis' : ∀ b, (a.Resumed c lo stop b ∧ ∀ h, b.unstable.blocks.at? h = none) →
      c.StartsAt (some b.config.genesisHash) 0 := fun b hb => hb.1.becomes.config ▸ hgenesis
  refine ((ensures_blockHashAt hhonest hgenesis' stop).failing fun _ _ => trivial).bind
    fun start => .of_and fun hstart => ?_
  refine (ensures_synchronizeWindow (E := fun _ => True) hpage hhonest hstart hle
    (P := fun b => a.Resumed c lo stop b ∧ ∀ h, b.unstable.blocks.at? h = none)
    (fun b hb => hb.1.becomes.config ▸ hvalid)
    fun {b last blocks w} hb _ _ hw => ⟨trivial, fun hlast _ => ?_⟩).failing fun _ _ => trivial
  exact hb.1.rebuilt hb.2 (hlast ▸ hw)

/-- If there are final heights, the stable window goes on to the last of them. -/
theorem ensures_stableWindow_of_resumes {tip depth : Nat} (h : a.Resumes c lo)
    (hle : lo ≤ tip + 1 - depth) :
    Ensures (· = a) ((Split.ofTip tip depth).stableTo.mapM (synchronizeStable explorer now))
      (fun _ b => a.Resumed c lo (tip + 1 - depth) b) fun _ _ => True := by
  refine .optionMapM (fun hi hstable => ?_) fun hstable b hb => ?_
  · obtain ⟨hdepth, rfl⟩ := Split.stableTo_eq_some_iff.1 hstable
    rw [Nat.sub_add_comm hdepth] at hle ⊢
    exact ensures_synchronizeStable_of_resumes hpage hhonest hvalid hgenesis h hle
  · have hlt := Split.stableTo_eq_none_iff.1 hstable
    have hzero : tip + 1 - depth = 0 := Nat.sub_eq_zero_of_le hlt
    obtain rfl := hb
    obtain rfl : lo = 0 := by omega
    exact hzero ▸ h.resumed

/-- If there are heights above the final ones, the unstable window is made of them. -/
theorem ensures_unstableWindow_of_resumed {tip depth : Nat} :
    Ensures (fun b => a.Resumed c lo (tip + 1 - depth) b)
      ((Split.ofTip tip depth).unstableFrom.mapM (rebuildUnstable explorer · tip))
      (fun _ b => a.Rebuilt c lo (tip + 1 - depth) (tip + 1) b) fun _ _ => True := by
  refine .optionMapM (fun stop hunstable => ?_) fun hunstable b hb => ?_
  · obtain ⟨hdepth, rfl⟩ := Split.unstableFrom_eq_some_iff.1 hunstable
    exact ensures_rebuildUnstable_of_resumed hpage hhonest hvalid hgenesis (by omega)
  · obtain rfl := Split.unstableFrom_eq_none_iff.1 hunstable
    exact hb.rebuilt_self

/-- **A pass goes on from the checkpoint**, and each of its windows finds what its search finds. -/
theorem ensures_synchronizeAll_of_resumes (h : a.Resumes c lo)
    (hle : lo ≤ c.final a.config.unstableDepth.toNat) :
    Ensures (· = a) (synchronizeAll explorer now)
      (fun _ b => a.Rebuilt c lo (c.final a.config.unstableDepth.toNat) c.blocks.length b)
      fun _ _ => True := by
  refine ((Ensures.ask hhonest.tip).failing fun _ _ => trivial).bind fun block => .of_and
    fun htip => ?_
  have hlength := Blockchain.height_of_tip? htip
  rw [Blockchain.final, ← hlength] at hle ⊢
  -- telling that the pass starts changes the journal alone
  refine (Ensures.change (R := fun _ b => ∃ journal, b = { a with journal })
    fun b hb => by subst hb; exact ⟨_, rfl⟩).bind fun _ => ?_
  refine .get_bind fun b s hb => ?_
  obtain ⟨journal, rfl⟩ := hb
  have hresumes : Account.Resumes { a with journal } c lo := ⟨h.whole, h.stored, h.checkpoint⟩
  refine (ensures_stableWindow_of_resumes (a := { a with journal }) hpage hhonest hvalid hgenesis
    hresumes hle).bind fun stable => ?_
  refine (ensures_unstableWindow_of_resumed (a := { a with journal }) hpage hhonest hvalid
    hgenesis).bind fun unstable => ?_
  refine ((Ensures.refreshPending fun hb _ => hb).failing fun _ _ => trivial).bind fun pending => ?_
  exact .pure fun b hb => hb

theorem ensures_synchronize_of_resumes (h : a.Resumes c lo)
    (hle : lo ≤ c.final a.config.unstableDepth.toNat) :
    Ensures (· = a) (synchronize explorer now)
      (fun _ b => a.Rebuilt c lo (c.final a.config.unstableDepth.toNat) c.blocks.length b)
      fun _ _ => True :=
  (ensures_synchronizeAll_of_resumes hpage hhonest hvalid hgenesis h hle).synchronize
    (fun _ hb => hb) fun _ _ => trivial

end

end Action
end WatchWallet
