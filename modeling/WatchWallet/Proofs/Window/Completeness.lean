import WatchWallet.Proofs.Blockchain.Honest
import WatchWallet.Proofs.Window.Coverage

/-!
# Window — Completeness

A synchronization that succeeds finds everything, when the explorer is honest
(`synchronize_complete`): however the answers interleave, it hands over one block for each height at
which the account is touched, with exactly the transactions that touch it, provided that activity
keeps to the gap.  Without that proviso, and also when it fails, it hands over what its search finds
up to some height (`scanned_of_synchronize`).
-/

namespace WatchWallet

/-- The search that a scan of a window from a height on does. -/
def Window.search (w : Window) (config : SyncConfig) (b : Blockchain) (lo : Nat) : Search where
  blockchain := b
  addresses := (w.plan config).addresses
  used c := (w.chains.get c).used
  gap := (w.plan config).gap
  lo := lo

theorem Window.serves {config : SyncConfig} (hvalid : config.Valid) (w : Window) (b : Blockchain)
    (lo : Nat) : (w.plan config).Serves (w.search config b lo) :=
  ⟨rfl, rfl, hvalid.gapSize_pos⟩

namespace Run

variable {w : Window} {config : SyncConfig} {b : Blockchain} {first : Option String}
  {lo hi page : Nat} {r : Run}

/-! ### The first tasks -/

theorem exact_start (hvalid : config.Valid) (hfirst : b.StartsAt first lo) :
    Exact (w.search config b lo) hi (start w config first lo hi) := by
  have hnone : ∀ x, (start w config first lo hi).scan.buckets.get x = [] := Buckets.get_empty
  refine ⟨fun t ht => ?_, fun {x tx} hholds => ?_, fun x => ?_, ?_⟩
  · obtain ⟨⟨c, batch, hbatch, rfl⟩, -⟩ := Window.mem_bootstrap.1 ht
    rcases List.mem_append.1 hbatch with hregular | hgap
    · refine ⟨hfirst, fun a ha => ?_, fun hisgap => ?_⟩
      · obtain ⟨i, hi, hlt⟩ := Batch.lt_used_of_mem_regulars hvalid.batchSize_pos hregular ha
        exact ⟨i, hi, Nat.le_refl _, .inl hlt⟩
      · obtain ⟨i, -, rfl⟩ := (Batch.mem_regulars hvalid.batchSize_pos).1 hregular
        cases hisgap
    · obtain rfl := List.mem_singleton.1 hgap
      refine Search.Fits.of_batch (j := 0) ?_ hvalid.gapSize_pos hfirst (.first (Nat.le_refl _))
        fun y hy => hy.lo_le
      rw [Search.batch, Nat.zero_mul]
      rfl
  · rcases hholds with hmem | ⟨block, hblock, -⟩
    · rw [hnone] at hmem
      cases hmem
    · rw [stored_start] at hblock
      cases hblock
  · rw [hnone]
    exact List.nodup_nil
  · rw [stored_start]
    exact fun _ hmem => absurd hmem List.not_mem_nil

/-- The first tasks await everything that the search sees. -/
theorem exists_awaits_start (hvalid : config.Valid) {c : Chain} {i x : Nat} {a : String}
    (ha : ((w.search config b lo).addresses c)[i]? = some a) (hlo : lo ≤ x) (hhi : x ≤ hi) :
    ∃ t ∈ (start w config first lo hi).out, t.Awaits c i a x := by
  have hwindow : lo ≤ hi := Nat.le_trans hlo hhi
  by_cases hused : i < (w.chains.get c).used
  · obtain ⟨batch, hbatch, hmem⟩ := Batch.exists_mem_regulars hvalid.batchSize_pos ha hused
    exact ⟨⟨c, batch, first, lo, hi⟩, Window.mem_bootstrap.2 ⟨⟨c, batch,
      List.mem_append_left _ hbatch, rfl⟩, Task.isLive_iff.2 ⟨List.ne_nil_of_mem hmem, hwindow⟩⟩,
      rfl, hlo, hhi, .inl hmem⟩
  · let batch := Batch.derive (w.chains.get c).addresses (w.chains.get c).used
      config.gapSize.toNat .gap
    have hlen : i < (w.chains.get c).addresses.length := (List.getElem?_eq_some_iff.1 ha).1
    have hgap := hvalid.gapSize_pos
    have hne : batch.addresses ≠ [] := by
      refine List.ne_nil_of_mem (Batch.mem_derive.2 ⟨(w.chains.get c).used,
        List.getElem?_eq_getElem (by omega), Nat.le_refl _, by omega⟩)
    refine ⟨⟨c, batch, first, lo, hi⟩, Window.mem_bootstrap.2 ⟨⟨c, batch,
      List.mem_append_right _ (List.mem_singleton.2 rfl), rfl⟩, Task.isLive_iff.2 ⟨hne, hwindow⟩⟩,
      rfl, hlo, hhi, ?_⟩
    by_cases hin : i < (w.chains.get c).used + config.gapSize.toNat
    · exact .inl (Batch.mem_derive.2 ⟨i, ha, Nat.not_lt.1 hused, hin⟩)
    · refine .inr ⟨rfl, ?_⟩
      show (w.chains.get c).used + config.gapSize.toNat - 1 < i
      omega

theorem covers_start (hvalid : config.Valid) :
    Covers (w.search config b lo) hi (start w config first lo hi) :=
  ⟨fun _ => rfl, fun _ => Nat.le_refl _, fun hk _ => hk,
    fun ha hseen hhi => .inr (exists_awaits_start hvalid ha hseen.1 hhi)⟩

theorem drained_start : Drained (start w config first lo hi) :=
  fun x _ _ => Buckets.get_empty x

/-- What holds of a run with an honest explorer in every state. -/
structure Complete (s : Search) (hi : Nat) (r : Run) : Prop where
  sound : Sound s.lo hi r
  inOrder : InOrder r
  exact : Exact s hi r
  covers : Covers s hi r
  drained : Drained r

theorem complete_of_steps (hvalid : config.Valid) (hpage : 1 ≤ page)
    (hfirst : b.StartsAt first lo)
    (h : Steps (w.plan config) (b.replies page) (start w config first lo hi) r) :
    Complete (w.search config b lo) hi r := by
  have hp := w.serves hvalid b lo
  refine h.keep (P := Complete (w.search config b lo) hi) (fun hr hstep => ?_)
    ⟨sound_start w config first lo hi, .start w config first lo hi, exact_start hvalid hfirst,
      covers_start hvalid, drained_start⟩
  exact ⟨hr.sound.step hstep, hr.inOrder.step hr.sound hstep, hr.exact.step hp hr.sound hstep,
    hr.covers.step hp hpage hr.exact hr.sound hstep, hr.drained.step hr.sound hstep⟩

end Run

/-! ### What is handed over -/

/-- The blocks are what a search finds below a height: one for each height at which it finds
something, with all that it finds there. -/
structure Search.Delivers (s : Search) (stop : Nat) (blocks : List FilledBlock) : Prop where
  ascending : (blocks.map FilledBlock.height).Pairwise (· < ·)
  block : ∀ b ∈ blocks, b.transactions ≠ [] ∧ (b.transactions.map (·.hash)).Nodup ∧
    s.blockchain.header? b.height = some b.header
  mem_iff : ∀ {x tx}, (∃ b ∈ blocks, b.height = x ∧ tx ∈ b.transactions) ↔
    s.lo ≤ x ∧ x < stop ∧ s.Found x tx

/-- The blocks are those from a height on and below another that touch one of the addresses: one for
each height at which there is such a transaction, with exactly these transactions. -/
structure Blockchain.Extracts (c : Blockchain) (addresses : List String) (lo stop : Nat)
    (blocks : List FilledBlock) : Prop where
  ascending : (blocks.map FilledBlock.height).Pairwise (· < ·)
  block : ∀ b ∈ blocks, lo ≤ b.height ∧ b.height < stop ∧ c.header? b.height = some b.header ∧
    b.transactions ≠ [] ∧ b.transactions.Perm (c.touching addresses b.height)
  exists_block : ∀ x, lo ≤ x → x < stop → c.touching addresses x ≠ [] → ∃ b ∈ blocks, b.height = x

/-- When activity keeps to the gap, a search finds everything that touches the account. -/
theorem Search.Delivers.extracts {s : Search} {hi stop : Nat} {blocks : List FilledBlock}
    (h : s.Delivers stop blocks) (hstop : stop ≤ hi + 1) (hgap : 0 < s.gap)
    (hd : ∀ c, s.Disciplined c hi) :
    s.blockchain.Extracts (s.addresses .receive ++ s.addresses .change) s.lo stop blocks := by
  have hfound : ∀ {x tx}, s.lo ≤ x → x < stop → (s.Found x tx ↔
      tx ∈ s.blockchain.touching (s.addresses .receive ++ s.addresses .change) x) :=
    fun hlo hlt => found_iff hgap hd hlo (by omega)
  have hwithin : ∀ b ∈ blocks, s.lo ≤ b.height ∧ b.height < stop := by
    intro b hb
    obtain ⟨tx, htx⟩ := List.exists_mem_of_ne_nil _ (h.block b hb).1
    obtain ⟨hlo, hlt, -⟩ := h.mem_iff.1 ⟨b, hb, rfl, htx⟩
    exact ⟨hlo, hlt⟩
  refine ⟨h.ascending, fun b hb => ?_, fun x hlo hlt hne => ?_⟩
  · obtain ⟨hne, hnodup, hheader⟩ := h.block b hb
    obtain ⟨hlo, hlt⟩ := hwithin b hb
    refine ⟨hlo, hlt, hheader, hne, ?_⟩
    refine (List.perm_ext_iff_of_nodup (.of_map _ hnodup)
      (s.blockchain.nodup_touching _ b.height)).2 fun tx => ?_
    rw [← hfound hlo hlt]
    refine ⟨fun htx => (h.mem_iff.1 ⟨b, hb, rfl, htx⟩).2.2, fun hfound => ?_⟩
    obtain ⟨b', hb', hheight, htx⟩ := h.mem_iff.2 ⟨hlo, hlt, hfound⟩
    -- what the search delivers at this height is in one block, which is this one
    have hheights : (blocks.map FilledBlock.height).Nodup := h.ascending.imp Nat.ne_of_lt
    obtain rfl := List.inj_on_of_nodup_map hheights hb' hb hheight
    exact htx
  · obtain ⟨tx, htx⟩ := List.exists_mem_of_ne_nil _ hne
    obtain ⟨b, hb, hheight, -⟩ := h.mem_iff.2 ⟨hlo, hlt, (hfound hlo hlt).2 htx⟩
    exact ⟨b, hb, hheight⟩

namespace Run.Complete

variable {s : Search} {hi stop : Nat} {r : Run}

/-- Where no task is out, what the search sees is settled. -/
theorem settled (hr : Complete s hi r) {c : Chain} {i x : Nat} {a : String}
    (ha : (s.addresses c)[i]? = some a) (hseen : s.Seen c i x) (hhi : x ≤ hi)
    (hnobody : r.unreported x = []) : r.Settled s c a x := by
  rcases hr.covers.settled_or_awaited ha hseen hhi with hsettled | ⟨t, ht, hawaits⟩
  · exact hsettled
  · have hmem : t ∈ r.unreported x := List.mem_append_left _
      (List.mem_filter.2 ⟨ht, Task.covers_iff.2 ⟨hawaits.lo_le, hawaits.le_hi⟩⟩)
    rw [hnobody] at hmem
    cases hmem

/-- A run has handed over what its search finds below a height, if no task is out for the heights
below it and nothing waits there. -/
theorem delivers_of_get_eq_nil (hr : Complete s hi r) (hle : stop ≤ hi + 1)
    (hbelow : ∀ b ∈ r.stored, b.height < stop)
    (hdone : ∀ x, s.lo ≤ x → x < stop → r.unreported x = [] ∧ r.scan.buckets.get x = []) :
    s.Delivers stop r.stored := by
  refine ⟨hr.inOrder.ascending, hr.exact.block, fun {x tx} => ⟨?_, ?_⟩⟩
  · rintro ⟨b, hb, rfl, htx⟩
    obtain ⟨hlo, -, hfound⟩ := hr.exact.found (.inr ⟨b, hb, rfl, htx⟩)
    exact ⟨hlo, hbelow b hb, hfound⟩
  · rintro ⟨hlo, hlt, hmined, c, i, a, ha, hseen, htouches⟩
    obtain ⟨hnobody, hnothing⟩ := hdone x hlo hlt
    obtain ⟨hmem | hblock, -⟩ := hr.settled ha hseen (by omega) hnobody tx hmined htouches
    · rw [hnothing] at hmem
      cases hmem
    · exact hblock

/-- **A run hands over what its search finds** below the first height that a task is out for. -/
theorem delivers (hr : Complete s hi r) (hstage : r.stage = .waiting) (hle : stop ≤ hi + 1)
    (hstop : ∀ x, s.lo ≤ x → x ≤ hi → (r.unreported x = [] ↔ x < stop)) :
    s.Delivers stop r.stored := by
  refine hr.delivers_of_get_eq_nil hle (fun b hb => ?_) fun x hlo hlt => ?_
  · have hc := (hr.inOrder.isComplete b hb).1
    obtain ⟨hlo, hhi⟩ := hr.sound.le_of_isComplete hc
    exact (hstop _ hlo hhi).1 (hr.sound.unreported_of_isComplete hc).1
  · have hhi : x ≤ hi := by omega
    have hnobody := (hstop x hlo hhi).2 hlt
    exact ⟨hnobody, hr.drained.get_eq_nil hr.sound hstage hlo hhi hnobody⟩

/-- When no task is out any more, everything is handed over. -/
theorem delivers_of_out_eq_nil (hr : Complete s hi r) (hstage : r.stage = .waiting)
    (hout : r.out = []) : s.Delivers (hi + 1) r.stored := by
  refine hr.delivers hstage (Nat.le_refl _) fun x _ hhi => ?_
  simp [unreported, hstage, hout, Stage.unreported, Nat.lt_succ_of_le hhi]

end Run.Complete

/-! ### What a synchronization comes to -/

namespace Window

/-- What a synchronization makes of a window when it comes as far as a height. -/
structure Scanned (w : Window) (s : Search) (stop : Nat) (blocks : List FilledBlock)
    (w' : Window) : Prop where
  delivers : s.Delivers stop blocks
  journal : ∃ acts, w'.journal = w.journal ++ acts ∧ Journal.added w.kind acts = blocks
  kind : w'.kind = w.kind
  store : w'.store = ((blocks.foldl BlockStore.add w.store).flush w.disk).2.1
  disk : w'.disk = ((blocks.foldl BlockStore.add w.store).flush w.disk).2.2
  addresses : ∀ c, (w'.chains.get c).addresses = s.addresses c
  used_le : ∀ c, s.used c ≤ (w'.chains.get c).used
  /-- What is found with a chain and pays an address of it marks this address. -/
  marked : ∀ {c x tx i a}, s.FoundWith c x tx → x < stop → (s.addresses c)[i]? = some a →
    a ∈ tx.paidAddresses → i < (w'.chains.get c).used

variable {w w' : Window} {config : SyncConfig} {b : Blockchain} {first : Option String}
  {page lo hi : Nat} {σ : Type} {explorer : Explorer σ} {s s' : σ}
  {result : Except Stop WindowStats}

/-- **A synchronization hands over what its search finds** below some height, unless it overflows, and
when it succeeds, in the whole window. -/
theorem scanned_of_synchronize (hvalid : config.Valid) (hpage : 1 ≤ page)
    (hhonest : explorer.Keeps (b.replies page)) (hfirst : b.StartsAt first lo) (hle : lo ≤ hi)
    (h : w.synchronize explorer config first lo hi s = (result, w', s'))
    (hreturns : result ≠ .error .overflow) :
    ∃ stop blocks, lo ≤ stop ∧ stop ≤ hi + 1 ∧
      w.Scanned (w.search config b lo) stop blocks w' ∧
      ∀ stats, result = .ok stats → stop = hi + 1 ∧
        (w.search config b lo).Counts (hi + 1) fun c => (w'.chains.get c).used := by
  obtain ⟨r, hsteps, hstage, hleaves, hok⟩ := Run.steps_of_synchronize hhonest hle h
  have hr := Run.complete_of_steps hvalid hpage hfirst hsteps
  have hrecords := Run.records_of_steps hsteps
  obtain ⟨stop, hlo, hhi, hstop⟩ := Run.exists_stop (P := fun x => r.unreported x = [])
    (Nat.le_succ_of_le hle) fun _ hle hhi hnil => hr.sound.unreported_nil_of_le hle hhi hnil
  obtain ⟨acts, hjournal, hadded⟩ := hrecords.journal
  obtain ⟨tail, htail, hquiet⟩ := hleaves.journal
  -- below the stop every task has reported, so what is found there is settled and marked
  have hmarked : ∀ {c x tx i a}, (w.search config b lo).FoundWith c x tx → x < stop →
      (w.chains.get c).addresses[i]? = some a → a ∈ tx.paidAddresses →
      i < (w'.chains.get c).used := by
    intro c x tx i a hfound hlt ha hpaid
    obtain ⟨htx, k, d, hd, hseen, htouches⟩ := hfound
    have hhi : x ≤ hi := by omega
    have hsettled := hr.settled hd hseen hhi ((hstop x hseen.1 hhi).2 hlt)
    rw [hleaves.chains]
    exact (hsettled tx htx htouches).2 ha hpaid
  refine ⟨stop, r.stored, hlo, hhi, ⟨hr.delivers hstage hhi hstop, ?_, hleaves.kind, ?_, ?_, ?_, ?_,
    hmarked⟩, fun stats hresult => ?_⟩
  · refine ⟨acts ++ tail, by rw [htail, hjournal, List.append_assoc], ?_⟩
    rw [Journal.added_append, hadded, hquiet, List.append_nil]
  · rw [hleaves.store_eq, save_of_ne hreturns, hrecords.store]
  · rw [hleaves.disk_eq, save_of_ne hreturns, hrecords.store]
  · exact fun c => hleaves.chains ▸ hr.covers.addresses c
  · exact fun c => hleaves.chains ▸ hr.covers.used_le c
  · have hout := (hok stats hresult).1
    have hall : hi < stop := (hstop hi hle (Nat.le_refl _)).1 (by
      simp [Run.unreported, hstage, hout, Stage.unreported])
    obtain rfl : stop = hi + 1 := by omega
    refine ⟨rfl, fun c k => ⟨fun hused => ⟨?_, fun hfound hx ha hpaid => ?_⟩, fun hk => ?_⟩⟩
    · exact Nat.le_trans (hleaves.chains ▸ hr.covers.used_le c) hused
    · exact Nat.lt_of_lt_of_le (hmarked hfound hx ha hpaid) hused
    · rw [hleaves.chains]
      exact hr.covers.le_of_found hk.1 fun hfound hx => hk.2 hfound (Nat.lt_succ_of_le hx)

/-- **A synchronization that succeeds is complete.**  With an honest explorer and activity that keeps
to the gap, a run in which no task is left has handed over, in whichever order the answers came, one
block for each height of the window at which the account is touched, with exactly the transactions
that touch it; and these are the blocks that a synchronization hands over when it succeeds. -/
theorem synchronize_complete {w : Window} {config : SyncConfig} {b : Blockchain}
    {page lo hi : Nat} {header : Block} (hvalid : config.validate = .ok ()) (hpage : 1 ≤ page)
    (hfirst : b.header? lo = some header) (hd : ∀ c, (w.search config b lo).Disciplined c hi) :
    (∀ {r}, Run.Steps (w.plan config) (b.replies page)
        (Run.start w config (some header.hash) lo hi) r → r.stage = .waiting → r.out = [] →
      b.Extracts (w.chains.receive.addresses ++ w.chains.change.addresses) lo (hi + 1) r.stored) ∧
    ∀ {σ} {explorer : Explorer σ}, explorer.Keeps (b.replies page) → ∀ {stats w' s s'},
      w.synchronize explorer config (some header.hash) lo hi s = (.ok stats, w', s') →
      ∃ acts, w'.journal = w.journal ++ acts ∧
        b.Extracts (w.chains.receive.addresses ++ w.chains.change.addresses) lo (hi + 1)
          (Journal.added w.kind acts) := by
  have hvalid := SyncConfig.validate_eq_ok_iff.1 hvalid
  have hstart := Blockchain.startsAt_hash hfirst
  refine ⟨fun {r} hsteps hstage hout => ?_, fun {σ explorer} hhonest {stats w' s s'} h => ?_⟩
  · have hr := Run.complete_of_steps hvalid hpage hstart hsteps
    exact (hr.delivers_of_out_eq_nil hstage hout).extracts (Nat.le_refl _) hvalid.gapSize_pos hd
  by_cases hle : lo ≤ hi
  · obtain ⟨stop, blocks, -, hhi, hscanned, hok⟩ :=
      scanned_of_synchronize hvalid hpage hhonest hstart hle h nofun
    obtain ⟨acts, hjournal, rfl⟩ := hscanned.journal
    rw [← (hok stats rfl).1]
    exact ⟨acts, hjournal, hscanned.delivers.extracts hhi hvalid.gapSize_pos hd⟩
  · rw [synchronize, if_pos (Nat.not_le.1 hle)] at h
    cases h
    exact ⟨[], (List.append_nil _).symm, .nil, fun b hb => absurd hb List.not_mem_nil,
      fun x hlo hlt => absurd (Nat.le_trans hlo (Nat.le_of_lt_succ hlt)) hle⟩

/-- A block that holds nothing but payments. -/
def paymentBlock (header : Block) (payments : List (String × List String)) : FilledBlock where
  header := header
  transactions := payments.map fun (hash, addresses) =>
    { hash, block := some header, outputs := addresses.map fun a => { address := some a } }

/-- The first address is paid in the second block, and twice in the third, once together with the
address behind the gap. -/
def threeBlocks : Blockchain where
  blocks := [paymentBlock ⟨"g", 0, .epoch⟩ [], paymentBlock ⟨"b", 1, .epoch⟩ [("t", ["a"])],
    paymentBlock ⟨"c", 2, .epoch⟩ [("u", ["z", "a"]), ("v", ["a"])]]
  heights := by decide
  nodup_hashes := by decide
  block_eq := by decide
  nodup_transactions := by decide

/-- Two addresses of which none is known to be used. -/
def twoAddresses : Window :=
  ⟨.stable, ⟨.ofList ["a", "z"] 0, .ofList [] 0⟩, .memory .empty, .empty, []⟩

/-- With two transactions on a page and one address in a gap batch, the answer about the first
address is cut, and the second address is reached from the second block on. -/
theorem synchronize_complete_threeBlocks :
    let config : SyncConfig := ⟨0, 1, 1, 2, "g"⟩
    ∃ stats w', twoAddresses.synchronize (threeBlocks.explorer 2) config (some "g") 0 2 () =
        (.ok stats, w', ()) ∧
      ∃ acts, w'.journal = twoAddresses.journal ++ acts ∧
        threeBlocks.Extracts ["a", "z"] 0 3 (Journal.added .stable acts) := by
  intro config
  have hreached : (twoAddresses.search config threeBlocks 0).Disciplined .receive 2 := by
    refine ⟨fun _ _ hlt => absurd hlt (Nat.not_lt_zero _), fun {i a x} ha hi _ htouched => ?_⟩
    have hlen : i < 2 := (List.getElem?_eq_some_iff.1 ha).1
    have hafter : 1 ≤ x := by
      by_contra hzero
      obtain rfl : x = 0 := by omega
      obtain ⟨tx, htx, -⟩ := htouched
      cases htx
    have hi : 1 ≤ i := hi
    refine ⟨0, "a", 1, ?_, hi, rfl, hafter, _, List.mem_singleton.2 rfl, by decide⟩
    show i - 1 ≤ 0
    omega
  have hd : ∀ c, (twoAddresses.search config threeBlocks 0).Disciplined c 2
    | .receive => hreached
    | .change => ⟨nofun, nofun⟩
  have hok : (twoAddresses.synchronize (threeBlocks.explorer 2) config (some "g") 0 2 ()).1.isOk =
      true := by decide +kernel
  generalize hrun : twoAddresses.synchronize (threeBlocks.explorer 2) config (some "g") 0 2 () =
    run at hok
  obtain ⟨_ | stats, w', _⟩ := run
  · cases hok
  · have hfirst : threeBlocks.header? 0 = some ⟨"g", 0, .epoch⟩ := rfl
    exact ⟨stats, w', rfl, (synchronize_complete rfl (Nat.le_succ 1) hfirst hd).2
      (threeBlocks.honest_explorer 2).keeps hrun⟩

end Window
end WatchWallet
