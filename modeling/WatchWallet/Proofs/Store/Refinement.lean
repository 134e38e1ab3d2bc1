import Mathlib.Tactic.Common
import WatchWallet.Proofs.Store.Calls

/-!
# Store — Refinement

A store with files is a store in memory that lasts (`FileStore.refines_memory`).  It starts with a directory
that holds no block file, and writes may fail and leave files torn.  What is kept all the time: each block
that is not queued is in its file, and only heights with blocks have files (`FileStore.Mirrors`).  So once a
flush succeeds, the directory holds the blocks and nothing else that is taken for one
(`FileStore.Mirrors.openAt`).
-/

namespace WatchWallet.FileStore

/-- The files of a store are those of its blocks.  What is queued may be torn, or not be there yet. -/
structure Mirrors (s : FileStore) (d : Disk) : Prop where
  kept : s.Kept d (· ∈ s.dirty)
  /-- What is named like a block file is named for a height with a block. -/
  owned : ∀ {n}, BlockFile.height? n ≠ none → d.node? (s.dir ++ [n]) ≠ none →
    ∃ h, s.blocks.at? h ≠ none ∧ n = BlockFile.name h
  fits : ∀ {h b}, s.blocks.at? h = some b → (FilledBlock.binary.write b).length < UInt64.size

variable {s s' : FileStore} {d d' : Disk} {k : Nat} {result : Except SyncError Unit}

theorem Mirrors.add (hs : s.Mirrors d) {block : FilledBlock}
    (hfits : (FilledBlock.binary.write block).length < UInt64.size) : (s.add block).Mirrors d := by
  have hat : ∀ h, (s.add block).blocks.at? h =
      if h = block.height then some block else s.blocks.at? h := s.blocks.at?_add block
  refine ⟨hs.kept.add block, fun {n} hn hnode => ?_, fun {h b} hb => ?_⟩
  · obtain ⟨h, hne, rfl⟩ := hs.owned hn hnode
    refine ⟨h, ?_, rfl⟩
    rw [hat]
    split
    · exact Option.some_ne_none block
    · exact hne
  · rw [hat] at hb
    split at hb
    · exact Option.some.inj hb ▸ hfits
    · exact hs.fits hb

theorem Mirrors.flush (hs : s.Mirrors d) (hrun : s.flush d = (result, s', d')) : s'.Mirrors d' := by
  obtain ⟨hdir, hblocks, -, hrewrites⟩ := rewrites_of_flush hrun
  refine ⟨(hs.kept.flush hrun).1, fun {n} hn hnode => ?_, hblocks ▸ hs.fits⟩
  rw [hblocks]
  rw [hdir] at hnode
  by_cases hwritten : ∃ h ∈ s.dirty, s.dir ++ [n] = s.path h
  · obtain ⟨h, hdirty, heq⟩ := hwritten
    exact ⟨h, hs.kept.held hdirty, (List.cons.inj (List.append_cancel_left heq)).1⟩
  · rw [hrewrites.elsewhere hwritten] at hnode
    exact hs.owned hn hnode

/-- A removal that succeeds leaves no file above. -/
theorem Mirrors.removes (hs : s.Mirrors d) (h : s.Removes k d (.ok ()) s' d') : s'.Mirrors d' := by
  refine ⟨hs.kept.removes h, fun {n} hn hnode => ?_, fun {x b} hb => ?_⟩
  · rw [h.dir] at hnode
    obtain ⟨x, hne, rfl⟩ := hs.owned hn (h.prunes.node?_eq hnode ▸ hnode)
    refine ⟨x, ?_, rfl⟩
    rw [h.blocks, Blocks.at?_below]
    split
    · exact hne
    · rename_i hle
      exact absurd (h.gone rfl (Nat.not_lt.1 hle) hne) hnode
  · rw [h.blocks, Blocks.at?_below] at hb
    split at hb
    · exact hs.fits hb
    · cases hb

/-- A directory without block files is opened as an empty store. -/
theorem mirrors_of_openAt {dir : Path} (hopen : openAt dir d = (.ok s, d'))
    (hempty : ∀ n, BlockFile.height? n ≠ none → d.node? (dir ++ [n]) = none) :
    s = ⟨dir, .empty, ∅⟩ ∧ s.Mirrors d' := by
  obtain ⟨hr, rfl, hdirty, hshows⟩ := readable_of_openAt hopen
  have hnothing : ∀ {n}, BlockFile.height? n ≠ none → d'.node? (s.dir ++ [n]) = none := by
    intro n hn
    rw [Disk.node?_createDirectories (openAt_ok hopen).1 (Disk.append_not_mem_ancestors s.dir n)]
    exact hempty n hn
  have hblocks : s.blocks = .empty := by
    refine Blocks.ext_at? fun h => ?_
    rw [Blocks.at?_empty]
    refine Option.eq_none_iff_forall_ne_some.2 fun b hb => ?_
    obtain ⟨-, n, hn⟩ := hshows.found hb
    obtain ⟨hheight, content, hnode⟩ := BlockFile.found?_eq_some hn
    rw [hnothing (hheight ▸ Option.some_ne_none _)] at hnode
    cases hnode
  obtain ⟨dir, blocks, dirty⟩ := s
  obtain rfl : dirty = ∅ := hdirty
  obtain rfl : blocks = .empty := hblocks
  have hmade : openAt dir d = (.ok ⟨dir, .empty, ∅⟩, d') := hopen
  refine ⟨rfl, kept_of_openAt hmade, fun hn hnode => absurd (hnothing hn) hnode, fun {h b} hb => ?_⟩
  cases (Blocks.at?_empty h).symm.trans hb

/-- **When nothing is queued, the same blocks are found** when the directory is opened again. -/
theorem Mirrors.openAt (hs : s.Mirrors d) (hnone : ∀ h, h ∉ s.dirty) :
    openAt s.dir d = (.ok ⟨s.dir, s.blocks, ∅⟩, d) := by
  obtain ⟨blocks, hopened, hfound⟩ := hs.kept.openAt
  obtain ⟨-, -, -, hshows⟩ := readable_of_openAt hopened
  have hsame : blocks = s.blocks := by
    refine Blocks.ext_at? fun h => ?_
    cases hb : s.blocks.at? h with
    | some b => exact hfound hb (hnone h) (hs.fits hb)
    | none =>
        refine Option.eq_none_iff_forall_ne_some.2 fun b hb' => ?_
        obtain ⟨rfl, n, hn⟩ := hshows.found hb'
        -- a file that holds a block is that of a height with a block
        obtain ⟨hheight, content, hnode⟩ := BlockFile.found?_eq_some hn
        obtain ⟨k, hne, rfl⟩ := hs.owned (hheight ▸ Option.some_ne_none _)
          (hnode ▸ Option.some_ne_none _)
        rw [BlockFile.eq_of_height?_name hheight] at hne
        exact hne hb
  rw [hopened, hsame]

/-- **A store with files refines a store in memory.**  It is opened in a directory without block files, and
called in any order; writes may fail, removals do not.  After every call it holds the blocks of a store in
memory that is given the same calls, so both answer alike: the last block, the blocks of a range, and how
many there are.  When a flush succeeds next, the directory is opened again with exactly these blocks; when
it fails, every block that is not in its file is still queued. -/
theorem refines_memory {dir : Path} {d₀ d d' : Disk} {s : FileStore} {t : BlockStore}
    {calls : List StoreCall} (hopen : FileStore.openAt dir d₀ = (.ok s, d))
    (hempty : ∀ n, BlockFile.height? n ≠ none → d₀.node? (dir ++ [n]) = none)
    (hcalls : BlockStore.Calls (fun c result => ∀ h, c = .removeFrom h → result = .ok ())
      (.file s) d calls t d')
    (hfits : ∀ block, .add block ∈ calls →
      (FilledBlock.binary.write block).length < UInt64.size) :
    ∃ s', t = .file s' ∧
      BlockStore.Calls (fun _ result => result = .ok ()) (.memory .empty) d calls
        (.memory s'.blocks) d ∧
      ∀ {result s'' d''}, s'.flush d' = (result, s'', d'') → s''.blocks = s'.blocks ∧
        (result = .ok () → FileStore.openAt dir d'' = (.ok ⟨dir, s'.blocks, ∅⟩, d'')) ∧
        ∀ e, result = .error e → ∀ {h b}, s'.blocks.at? h = some b →
          d''.node? (dir ++ [BlockFile.name h]) ≠ some (.file (FilledBlock.binary.write b)) →
          h ∈ s''.dirty := by
  obtain ⟨rfl, hs⟩ := mirrors_of_openAt hopen hempty
  obtain ⟨s', rfl, hdir, hs'⟩ := hcalls.keep (Q := fun s d => s.dir = dir ∧ s.Mirrors d) ⟨rfl, hs⟩
    (fun hmem hs => ⟨hs.1, hs.2.add (hfits _ hmem)⟩)
    (fun {s s' d d' k result} hs hrun hok => by
      obtain rfl : result = .ok () := hok k rfl
      have hremoves := removes_of_removeFrom hs.2.kept.directory hrun
      exact ⟨hremoves.dir.trans hs.1, hs.2.removes hremoves⟩)
    (fun hs hrun _ => ⟨(rewrites_of_flush hrun).1.trans hs.1, hs.2.flush hrun⟩)
  refine ⟨s', rfl, hcalls.in_memory d, fun {result s'' d''} hrun => ?_⟩
  obtain ⟨hdir', hblocks, -, -⟩ := rewrites_of_flush hrun
  have hs'' := hs'.flush hrun
  refine ⟨hblocks, fun hok => ?_, fun e _ h b hb hnot => ?_⟩
  · have hopened := hs''.openAt ((hs'.kept.flush hrun).2.2 hok)
    rwa [hdir', hdir, hblocks] at hopened
  · by_contra hdirty
    refine hnot ?_
    rw [← hdir, ← hdir']
    exact hs''.kept.written (hblocks ▸ hb) hdirty

/-- A block without transactions. -/
def fifthBlock : FilledBlock := ⟨⟨"f", 5, .epoch⟩, []⟩

/-- The first write is torn, and the block stays queued; the next flush makes it last. -/
theorem refines_memory_torn :
    let start : FileStore := ⟨["d"], .empty, ∅⟩
    let disk : Disk := ⟨[(["d"], .directory)], [.torn 3]⟩
    let content := FilledBlock.binary.write fifthBlock
    ∃ e s₁ d₁ s₂ d₂, (start.add fifthBlock).flush disk = (.error e, s₁, d₁) ∧
      d₁.node? ["d", BlockFile.name 5] = some (.file (content.take 3)) ∧ 5 ∈ s₁.dirty ∧
      BlockStore.Calls (fun _ result => result = .ok ()) (.memory .empty) disk
        [.add fifthBlock, .flush] (.memory s₁.blocks) disk ∧
      s₁.flush d₁ = (.ok (), s₂, d₂) ∧
      FileStore.openAt ["d"] d₂ = (.ok ⟨["d"], s₁.blocks, ∅⟩, d₂) := by
  intro start disk content
  have hopen : FileStore.openAt ["d"] disk = (.ok start, disk) :=
    openAt_oneDirectory ..
  have hempty : ∀ n, BlockFile.height? n ≠ none → disk.node? (["d"] ++ [n]) = none :=
    fun n _ => by simp [disk, Disk.node?]
  have hlength : 3 < content.length ∧ content.length < 100 := by decide +kernel
  have hfits : ∀ {calls : List StoreCall}, (∀ block, .add block ∈ calls → block = fifthBlock) →
      ∀ block, .add block ∈ calls → (FilledBlock.binary.write block).length < UInt64.size :=
    fun hcalls block hblock => hcalls block hblock ▸ Nat.lt_trans hlength.2 (by decide)
  obtain ⟨hfailed, htorn, hretried⟩ : ((start.add fifthBlock).flush disk).1.isOk = false ∧
      ((start.add fifthBlock).flush disk).2.2.node? ["d", BlockFile.name 5] =
        some (.file (content.take 3)) ∧
      (((start.add fifthBlock).flush disk).2.1.flush
        ((start.add fifthBlock).flush disk).2.2).1.isOk = true := by decide +kernel
  rcases hfirst : (start.add fifthBlock).flush disk with ⟨e | u, s₁, d₁⟩ <;>
    rw [hfirst] at hfailed htorn hretried
  case ok => cases hfailed
  rcases hsecond : s₁.flush d₁ with ⟨e' | u, s₂, d₂⟩ <;> rw [hsecond] at hretried
  case error => cases hretried
  -- before the first flush, and between the two
  have hadded : BlockStore.Calls (fun c result => ∀ h, c = .removeFrom h → result = .ok ())
      (.file start) disk [.add fifthBlock] (.file (start.add fifthBlock)) disk :=
    .cons rfl (fun _ _ => rfl) (.nil _ disk)
  have hcall : (BlockStore.file (start.add fifthBlock)).call disk .flush =
      (.error e, .file s₁, d₁) := by
    rw [BlockStore.call, BlockStore.flush, hfirst]
  have hflushed : BlockStore.Calls (fun c result => ∀ h, c = .removeFrom h → result = .ok ())
      (.file start) disk [.add fifthBlock, .flush] (.file s₁) d₁ :=
    .cons rfl (fun _ _ => rfl) (.cons hcall (fun _ hflush => by cases hflush) (.nil _ d₁))
  obtain ⟨s', hs', -, hnext⟩ := refines_memory hopen hempty hadded (hfits (by simp))
  obtain rfl := BlockStore.file.inj hs'
  obtain ⟨s', hs', hmemory, hlast⟩ := refines_memory hopen hempty hflushed (hfits (by simp))
  obtain rfl := BlockStore.file.inj hs'
  refine ⟨e, s₁, d₁, s₂, d₂, rfl, htorn, ?_, hmemory, hsecond, (hlast hsecond).2.1 rfl⟩
  obtain ⟨-, -, hqueued⟩ := hnext hfirst
  have hat : (start.add fifthBlock).blocks.at? 5 = some fifthBlock :=
    (Blocks.at?_add ..).trans (if_pos rfl)
  refine hqueued e rfl hat fun hwhole => ?_
  have hsame := congrArg List.length (Node.file.inj (Option.some.inj (htorn.symm.trans hwhole)))
  rw [List.length_take] at hsame
  have hpart : min 3 content.length = content.length := hsame
  omega

end WatchWallet.FileStore
