import WatchWallet.Proofs.Store.Durability

/-!
# Store — Calls

A store is called in any order, and any change to its files may fail.  What holds of a store with files
before the calls, and is kept by each kind of call, holds after them (`BlockStore.Calls.keep`).  A store in
memory that is given the same calls holds the same blocks (`BlockStore.Calls.in_memory`).  What a removal
does is stated once (`FileStore.Removes`): it forgets the blocks whatever happens, and when it fails, a file
that it should have removed is still there.
-/

namespace WatchWallet

/-- What a store of blocks is called for.  It is cleared by a removal from the height 0 on. -/
inductive StoreCall where
  | add (block : FilledBlock)
  | removeFrom (height : Nat)
  | flush

namespace BlockStore

/-- Calls the store. -/
def call (s : BlockStore) (d : Disk) : StoreCall → Except SyncError Unit × BlockStore × Disk
  | .add block => (.ok (), s.add block, d)
  | .removeFrom height => s.removeFrom height d
  | .flush => s.flush d

/-- The store is called in this order.  `P` says which results come about. -/
inductive Calls (P : StoreCall → Except SyncError Unit → Prop) :
    BlockStore → Disk → List StoreCall → BlockStore → Disk → Prop where
  | nil (s : BlockStore) (d : Disk) : Calls P s d [] s d
  | cons {s s₁ s' : BlockStore} {d d₁ d' : Disk} {c : StoreCall} {calls : List StoreCall}
      {result : Except SyncError Unit} (hcall : s.call d c = (result, s₁, d₁))
      (hresult : P c result) (hrest : Calls P s₁ d₁ calls s' d') : Calls P s d (c :: calls) s' d'

variable {P : StoreCall → Except SyncError Unit → Prop} {calls : List StoreCall} {s s' : BlockStore}
  {d d' : Disk}

/-- **What every call keeps** holds of a store with files after the calls. -/
theorem Calls.keep {Q : FileStore → Disk → Prop} {s : FileStore}
    (h : Calls P (.file s) d calls s' d') (hs : Q s d)
    (hadd : ∀ {s d block}, .add block ∈ calls → Q s d → Q (s.add block) d)
    (hremove : ∀ {s s' : FileStore} {d d' k result}, Q s d →
      s.removeFrom k d = (result, s', d') → P (.removeFrom k) result → Q s' d')
    (hflush : ∀ {s s' : FileStore} {d d' result}, Q s d → s.flush d = (result, s', d') →
      P .flush result → Q s' d') :
    ∃ t, s' = .file t ∧ Q t d' := by
  generalize hstart : BlockStore.file s = start at h
  induction h generalizing s with
  | nil _ _ => exact ⟨s, hstart.symm, hs⟩
  | @cons _ s₁ _ d d₁ _ c calls result hcall hresult _ ih =>
      subst hstart
      have hadd' : ∀ {s d block}, .add block ∈ calls → Q s d → Q (s.add block) d :=
        fun hmem => hadd (List.mem_cons_of_mem c hmem)
      cases c with
      | add block =>
          cases hcall
          exact ih (hadd List.mem_cons_self hs) hadd' rfl
      | removeFrom k =>
          rcases hremoved : s.removeFrom k d with ⟨res, t, d₂⟩
          rw [call, BlockStore.removeFrom, hremoved] at hcall
          cases hcall
          exact ih (hremove hs hremoved hresult) hadd' rfl
      | flush =>
          rcases hflushed : s.flush d with ⟨res, t, d₂⟩
          rw [call, BlockStore.flush, hflushed] at hcall
          cases hcall
          exact ih (hflush hs hflushed hresult) hadd' rfl

/-- **A store in memory that is given the same calls holds the same blocks**, and nothing fails. -/
theorem Calls.in_memory (h : Calls P s d calls s' d') (d₀ : Disk) :
    Calls (fun _ result => result = .ok ()) (.memory s.blocks) d₀ calls (.memory s'.blocks) d₀ := by
  induction h with
  | nil s _ => exact .nil _ d₀
  | @cons s s₁ _ d d₁ _ c _ _ hcall _ _ ih =>
      have hblocks : (memory s.blocks).call d₀ c = (.ok (), memory s₁.blocks, d₀) := by
        cases c with
        | add block =>
            cases hcall
            rw [blocks_add]
            rfl
        | removeFrom k =>
            obtain rfl : (s.removeFrom k d).2.1 = s₁ := congrArg (·.2.1) hcall
            rw [blocks_removeFrom]
            rfl
        | flush =>
            obtain rfl : (s.flush d).2.1 = s₁ := congrArg (·.2.1) hcall
            rw [blocks_flush]
            rfl
      exact .cons hblocks rfl ih

end BlockStore

/-! ### Removals -/

theorem Blocks.mem_heightsFrom {b : Blocks} {k h : Nat} :
    h ∈ b.heightsFrom k ↔ k ≤ h ∧ b.at? h ≠ none := by
  rw [heightsFrom, List.mem_filter, decide_eq_true_eq, and_comm, Std.ExtTreeMap.mem_keys,
    Std.ExtTreeMap.mem_iff_isSome_getElem?, Option.isSome_iff_ne_none]
  rfl

namespace FileStore

variable {s s' : FileStore} {d d' : Disk} {k h : Nat} {queued : Nat → Prop} {b : FilledBlock}
  {result : Except SyncError Unit}

/-- The file of the first height is gone and the others follow, or the removal stops at it and it is
still there. -/
theorem removeFiles_cons_cases {hs : List Nat} (hdir : d.HasDirectory s.dir)
    (hrun : s.removeFiles d (h :: hs) = (result, d')) :
    (∃ d₁, d.Prunes (· = s.path h) d₁ ∧ d₁.node? (s.path h) = none ∧
        s.removeFiles d₁ hs = (result, d')) ∨
      (∃ e, result = .error e) ∧ d.node? (s.path h) ≠ none ∧
        d'.node? (s.path h) = d.node? (s.path h) := by
  have hprunes := d.prunes_removeFile (s.path h)
  have hcases := d.removeFile_cases (s.path h)
  rcases hremoved : d.removeFile (s.path h) with ⟨removed, d₁⟩
  rw [hremoved] at hprunes hcases
  rw [removeFiles, hremoved] at hrun
  rcases hcases with ⟨rfl, -, hdropped⟩ | ⟨hsame, e, rfl, hmissing, hthere⟩
  · refine .inl ⟨d₁, hprunes, ?_, hrun⟩
    rw [Disk.node?_congr hdropped, Disk.node?_drop (s.path_ne_nil h), if_pos rfl]
  · by_cases he : e = .notFound
    -- nothing is there to be removed, which is no failure
    · subst he
      exact .inl ⟨d₁, hprunes, (Disk.node?_congr hsame).trans (hmissing rfl), hrun⟩
    · have hparent : d.node? (s.path h).dropLast = some .directory := by
        rw [path, List.dropLast_concat]
        exact hdir.node?
      have hfail : ∃ e', (Except.error e', d₁) = (result, d') := by
        cases e <;> first | exact ⟨_, hrun⟩ | exact absurd rfl he
      obtain ⟨e', hfail⟩ := hfail
      cases hfail
      exact .inr ⟨⟨_, rfl⟩, hthere he hparent, Disk.node?_congr hsame⟩

/-- The files of the heights are gone, or one of them is still there. -/
theorem removeFiles_cases {hs : List Nat} (hdir : d.HasDirectory s.dir)
    (hrun : s.removeFiles d hs = (result, d')) :
    result = .ok () ∧ (∀ h ∈ hs, d'.node? (s.path h) = none) ∨
      (∃ e, result = .error e) ∧
        ∃ h ∈ hs, d.node? (s.path h) ≠ none ∧ d'.node? (s.path h) = d.node? (s.path h) := by
  induction hs generalizing d with
  | nil =>
      cases hrun
      exact .inl ⟨rfl, fun h hh => absurd hh List.not_mem_nil⟩
  | cons h hs ih =>
      rcases removeFiles_cons_cases hdir hrun with ⟨d₁, hprunes, hgone, hrest⟩ | ⟨herr, hne, hsame⟩
      · have hkept := s.prunes_removeFiles hs d₁
        rw [hrest] at hkept
        rcases ih (hprunes.hasDirectory hdir) hrest with ⟨hok, hall⟩ | ⟨herr, k, hk, hne, hsame⟩
        · refine .inl ⟨hok, fun k hk => ?_⟩
          rcases List.mem_cons.1 hk with rfl | hk
          -- what is gone stays gone
          · rcases hkept.same_or_gone (s.path k) with hsame | hnone
            · rw [hsame, hgone]
            · exact hnone
          · exact hall k hk
        · have hother : d₁.node? (s.path k) = d.node? (s.path k) := hprunes.node?_eq hne
          exact .inr ⟨herr, k, List.mem_cons_of_mem h hk, hother ▸ hne, hsame.trans hother⟩
      · exact .inr ⟨herr, h, List.mem_cons_self, hne, hsame⟩

/-- What a removal of the blocks from a height on does. -/
structure Removes (s : FileStore) (k : Nat) (d : Disk) (result : Except SyncError Unit) (s' : FileStore)
    (d' : Disk) : Prop where
  dir : s'.dir = s.dir
  blocks : s'.blocks = s.blocks.below k
  mem_dirty : ∀ {h}, h ∈ s'.dirty ↔ h ∈ s.dirty ∧ h < k
  prunes : d.Prunes (fun q => ∃ h, (k ≤ h ∧ s.blocks.at? h ≠ none) ∧ q = s.path h) d'
  gone : result = .ok () → ∀ {h}, k ≤ h → s.blocks.at? h ≠ none → d'.node? (s.path h) = none
  /-- The removal fails at a file that is there, and stays. -/
  left : ∀ {e}, result = .error e → ∃ h, k ≤ h ∧ s.blocks.at? h ≠ none ∧
    d.node? (s.path h) ≠ none ∧ d'.node? (s.path h) = d.node? (s.path h)

theorem removes_of_removeFrom (hdir : d.HasDirectory s.dir)
    (hrun : s.removeFrom k d = (result, s', d')) : s.Removes k d result s' d' := by
  rcases hremoved : s.removeFiles d (s.blocks.heightsFrom k) with ⟨removed, d₁⟩
  have hprunes := s.prunes_removeFiles (s.blocks.heightsFrom k) d
  have hcases := removeFiles_cases hdir hremoved
  rw [hremoved] at hprunes
  rw [removeFrom, hremoved] at hrun
  cases hrun
  simp only [Blocks.mem_heightsFrom] at hprunes hcases
  refine ⟨rfl, rfl, fun {h} => ?_, hprunes, fun hok h hk hne => ?_, fun {e} herr => ?_⟩
  · rw [Std.ExtTreeSet.mem_filter]
    simp
  · rcases hcases with ⟨-, hgone⟩ | ⟨⟨e, herr⟩, -⟩
    · exact hgone h ⟨hk, hne⟩
    · cases hok.symm.trans herr
  · rcases hcases with ⟨hok, -⟩ | ⟨-, h, ⟨hk, hne⟩, hthere, hsame⟩
    · cases hok.symm.trans herr
    · exact ⟨h, hk, hne, hthere, hsame⟩

/-- A removal leaves the blocks below in their files. -/
theorem Kept.removes (hs : s.Kept d (· ∈ s.dirty)) (h : s.Removes k d result s' d') :
    s'.Kept d' (· ∈ s'.dirty) := by
  have hat : ∀ {h b}, s'.blocks.at? h = some b → h < k ∧ s.blocks.at? h = some b := by
    intro x b hb
    rw [h.blocks, Blocks.at?_below] at hb
    split at hb
    · exact ⟨‹_›, hb⟩
    · cases hb
  refine ⟨h.dir ▸ h.prunes.hasDirectory hs.directory, fun hb => hs.keyed (hat hb).2,
    fun {x} hx => ?_, fun {x b} hb hnot => ?_, fun {n} hn hdir => ?_, fun {n b} hfound => ?_⟩
  · obtain ⟨hdirty, hlt⟩ := h.mem_dirty.1 hx
    rw [h.blocks, Blocks.at?_below, if_pos hlt]
    exact hs.held hdirty
  · obtain ⟨hlt, hb⟩ := hat hb
    have helsewhere : d'.node? (s.path x) = d.node? (s.path x) := by
      refine h.prunes.elsewhere ?_
      rintro ⟨y, ⟨hle, -⟩, heq⟩
      exact absurd (path_inj heq ▸ hle) (Nat.not_le.2 hlt)
    rw [path, h.dir]
    exact helsewhere.trans (hs.written hb fun hdirty => hnot (h.mem_dirty.2 ⟨hdirty, hlt⟩))
  · rw [h.dir] at hdir
    exact hs.legible hn (h.prunes.directory_iff.1 hdir)
  · rw [h.dir] at hfound
    obtain ⟨-, content, hnode⟩ := BlockFile.found?_eq_some hfound
    refine hs.named (n := n) ?_
    rw [← hfound]
    exact (BlockFile.found?_congr fun _ => h.prunes.node?_eq (hnode ▸ Option.some_ne_none _)).symm

end FileStore
end WatchWallet
