import Mathlib.Data.List.Nodup
import WatchWallet.Proofs.Keychain.Marking
import WatchWallet.Proofs.Store.Rewriting
import WatchWallet.Proofs.Window.Finalization

/-!
# Window — Advance

What a synchronization does to a window, whatever the explorer answers and whatever becomes of the flush
at its end (`Window.advances_of_synchronize`): addresses are marked, blocks within the bounds are added,
and of the disk nothing changes but the files of the store.
-/

namespace WatchWallet

theorem Chains.grows_update_markAll (cs : Chains) (c : Chain) (as : List String) :
    cs.Grows (cs.update c (·.markAll as)) := by
  intro c'
  rw [get_update]
  split
  · exact ⟨Keychain.addresses_markAll _ as, Keychain.used_le_used_markAll _ as⟩
  · exact ⟨rfl, Nat.le_refl _⟩

variable {w w' : Window} {lo hi : Nat}

/-- What a window is advanced to on the heights from `lo` to `hi`. -/
structure Window.Advances (lo hi : Nat) (w w' : Window) : Prop where
  kind : w'.kind = w.kind
  chains : w.chains.Grows w'.chains
  dir : w'.store.dir? = w.store.dir?
  disk : w.disk.Rewrites (BlockFile.At w.store.dir?) w'.disk
  stored : ∃ blocks, w'.store.blocks = w.store.blocks.addAll blocks ∧
    ∀ b ∈ blocks, lo ≤ b.height ∧ b.height ≤ hi

/-- A block of an advanced window is an old one, or it lies within the bounds. -/
theorem Window.Advances.at?_cases (h : w.Advances lo hi w') (k : Nat) :
    w'.store.blocks.at? k = w.store.blocks.at? k ∨
      lo ≤ k ∧ k ≤ hi ∧ ∃ block, w'.store.blocks.at? k = some block ∧ block.height = k := by
  obtain ⟨blocks, hblocks, hwithin⟩ := h.stored
  rw [hblocks]
  rcases w.store.blocks.at?_addAll blocks k with ⟨block, hmem, rfl, hat⟩ | ⟨-, hat⟩
  · exact .inr ⟨(hwithin block hmem).1, (hwithin block hmem).2, block, hat, rfl⟩
  · exact .inl hat

/-! ### The store and the disk at the end -/

namespace Window

variable {α : Type} (disk : Disk) (store : BlockStore) (result : Except Stop α)

@[simp] theorem dir?_save : (save disk store result).1.dir? = store.dir? := by
  rcases save_cases disk store result with h | h <;> rw [h]
  exact store.dir?_flush disk

theorem rewrites_save :
    disk.Rewrites (BlockFile.At store.dir?) (save disk store result).2 := by
  rcases save_cases disk store result with h | h <;> rw [h]
  · exact .refl _ _
  · exact store.rewrites_flush disk

end Window

namespace Run

variable {replies : Replies} {config : SyncConfig} {first : Option String} {r : Run}

/-- The addresses stay, and no mark is taken back. -/
theorem grows_of_steps (h : Steps (w.plan config) replies (start w config first lo hi) r) :
    w.chains.Grows r.scan.chains := by
  refine h.keep (P := fun r => w.chains.Grows r.scan.chains) (fun {r r'} hr hstep => ?_) (.refl _)
  cases hstep.effect with
  | answer _ _ _ _ _ hchains _ _ _ => exact hchains ▸ hr.trans (Chains.grows_update_markAll _ _ _)
  | store _ _ hchains _ _ _ _ => exact hchains ▸ hr
  | none _ _ hchains _ _ _ => exact hchains ▸ hr

variable {result : Except Stop WindowStats}

/-- The store holds what the run has handed over. -/
theorem blocks_of_leaves (h : Steps (w.plan config) replies (start w config first lo hi) r)
    (hleaves : w.Leaves result r.scan w') : w'.store.blocks = w.store.blocks.addAll r.stored := by
  rw [hleaves.store_eq, Window.blocks_save, (records_of_steps h).store, BlockStore.blocks_foldl_add]

/-- A block that was handed over is held, for no other one has its height. -/
theorem at?_of_mem_stored (h : Steps (w.plan config) replies (start w config first lo hi) r)
    (hleaves : w.Leaves result r.scan w') {b : FilledBlock} (hb : b ∈ r.stored) :
    w'.store.blocks.at? b.height = some b := by
  rw [blocks_of_leaves h hleaves]
  rcases w.store.blocks.at?_addAll r.stored b.height with ⟨b', hb', hheight, hat⟩ | ⟨hnone, -⟩
  · have hnodup : (r.stored.map FilledBlock.height).Nodup :=
      (inOrder_of_steps h).2.ascending.imp Nat.ne_of_lt
    rw [hat, List.inj_on_of_nodup_map hnodup hb' hb hheight]
  · exact absurd rfl (hnone b hb)

theorem advances_of_leaves (h : Steps (w.plan config) replies (start w config first lo hi) r)
    (hleaves : w.Leaves result r.scan w') : w.Advances lo hi w' := by
  obtain ⟨hs, ho⟩ := inOrder_of_steps h
  have hdir : r.scan.store.dir? = w.store.dir? := by
    rw [(records_of_steps h).store, BlockStore.dir?_foldl_add]
  refine ⟨hleaves.kind, hleaves.chains ▸ grows_of_steps h, ?_, ?_, r.stored, blocks_of_leaves h hleaves,
    fun b hb => hs.le_of_isComplete (ho.isComplete b hb).1⟩
  · rw [hleaves.store_eq, Window.dir?_save, hdir]
  · rw [hleaves.disk_eq, ← hdir]
    exact Window.rewrites_save w.disk r.scan.store result

end Run

/-- The blocks of a window with heights are added to its store, which is flushed unless there is an
overflow; when the window succeeds, so does the flush. -/
theorem Window.saved_of_synchronize {σ : Type} {explorer : Explorer σ} {config : SyncConfig}
    {first : Option String} {s s' : σ} {result : Except Stop WindowStats} (hle : lo ≤ hi)
    (h : w.synchronize explorer config first lo hi s = (result, w', s')) :
    ∃ blocks : List FilledBlock,
      (w'.store, w'.disk) = save w.disk (blocks.foldl BlockStore.add w.store) result ∧
        ∀ stats, result = .ok stats →
          ((blocks.foldl BlockStore.add w.store).flush w.disk).1 = .ok () := by
  have hkeeps : explorer.Keeps fun _ _ _ => True := fun _ => trivial
  obtain ⟨r, hsteps, -, hleaves, hok⟩ := Run.steps_of_synchronize hkeeps hle h
  have hstore := (Run.records_of_steps hsteps).store
  exact ⟨r.stored, hstore ▸ hleaves.saved, fun stats hstats => hstore ▸ (hok stats hstats).2⟩

/-- **A window is advanced**, also when its synchronization fails. -/
theorem Window.advances_of_synchronize {σ : Type} {explorer : Explorer σ} {config : SyncConfig}
    {first : Option String} {s s' : σ} {result : Except Stop WindowStats}
    (h : w.synchronize explorer config first lo hi s = (result, w', s')) : w.Advances lo hi w' := by
  rcases Nat.lt_or_ge hi lo with hlt | hle
  · rw [synchronize_of_lt w explorer config first hlt] at h
    cases h
    exact ⟨rfl, .refl _, rfl, .refl _ _, [], rfl, fun _ hb => absurd hb List.not_mem_nil⟩
  · have hkeeps : explorer.Keeps fun _ _ _ => True := fun _ => trivial
    obtain ⟨r, hsteps, -, hleaves, -⟩ := Run.steps_of_synchronize hkeeps hle h
    exact Run.advances_of_leaves hsteps hleaves

end WatchWallet
