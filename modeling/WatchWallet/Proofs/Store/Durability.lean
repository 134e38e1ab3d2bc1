import WatchWallet.Proofs.Store.Rewriting

/-!
# Store — Durability

What the files of a store hold when writes may fail and leave files torn (`FileStore.Kept`): each block
that is not queued is in its file, and no other file there is taken for a block.  A flush keeps this, and
nothing stays queued when it succeeds (`Kept.flush`).  Whenever the directory is opened again, the blocks
that are not queued are found (`Kept.openAt`).
-/

namespace WatchWallet

/-- The height is still to be written. -/
def BlockStore.Queued : BlockStore → Nat → Prop
  | memory _, _ => False
  | file store, h => h ∈ store.dirty

instance (s : BlockStore) (h : Nat) : Decidable (s.Queued h) :=
  match s with
  | .memory _ => inferInstanceAs (Decidable False)
  | .file store => inferInstanceAs (Decidable (h ∈ store.dirty))

namespace FileStore

/-- The blocks of a store are in their files, apart from those that are still queued.  A file that holds
a block is the one for its height. -/
structure Kept (s : FileStore) (d : Disk) (queued : Nat → Prop) : Prop where
  directory : d.HasDirectory s.dir
  keyed : ∀ {h b}, s.blocks.at? h = some b → b.height = h
  held : ∀ {h}, queued h → s.blocks.at? h ≠ none
  written : ∀ {h b}, s.blocks.at? h = some b → ¬queued h →
    d.node? (s.path h) = some (.file (FilledBlock.binary.write b))
  legible : ∀ {n}, BlockFile.height? n ≠ none → d.node? (s.dir ++ [n]) ≠ some .directory
  named : ∀ {n b}, BlockFile.found? d s.dir n = some b → n = BlockFile.name b.height

variable {s s' : FileStore} {d d' : Disk} {queued : Nat → Prop} {h k : Nat} {b : FilledBlock}
  {result : Except SyncError Unit}

theorem Kept.height?_name (hs : s.Kept d queued) (hb : s.blocks.at? h = some b) :
    BlockFile.height? (BlockFile.name h) = some h := by
  rw [BlockFile.height?_name, if_pos (hs.keyed hb ▸ b.header.height.toNat_lt)]

/-- Changes elsewhere do not reach the blocks. -/
theorem Kept.elsewhere (hs : s.Kept d queued) (hdir : d'.HasDirectory s.dir)
    (hsame : ∀ {n}, BlockFile.height? n ≠ none →
      d'.node? (s.dir ++ [n]) = d.node? (s.dir ++ [n])) : s.Kept d' queued := by
  refine ⟨hdir, hs.keyed, hs.held, fun {h b} hb hnot => ?_, fun {n} hn => ?_, fun {n b} hfound => ?_⟩
  · have hname := hs.height?_name hb
    rw [path, hsame (hname ▸ Option.some_ne_none h)]
    exact hs.written hb hnot
  · rw [hsame hn]
    exact hs.legible hn
  · rw [BlockFile.found?_congr hsame] at hfound
    exact hs.named hfound

/-- A new block is queued. -/
theorem Kept.add (hs : s.Kept d (· ∈ s.dirty)) (block : FilledBlock) :
    (s.add block).Kept d (· ∈ (s.add block).dirty) := by
  have hmem : ∀ {h}, h ∈ (s.add block).dirty ↔ block.height = h ∨ h ∈ s.dirty := by
    intro h
    show h ∈ s.dirty.insert block.height ↔ _
    rw [Std.ExtTreeSet.mem_insert, Nat.compare_eq_eq]
  have hat : ∀ h, (s.add block).blocks.at? h =
      if h = block.height then some block else s.blocks.at? h := s.blocks.at?_add block
  refine ⟨hs.directory, fun {h b} hb => ?_, fun {h} hh => ?_, fun {h b} hb hnot => ?_, hs.legible,
    hs.named⟩
  · rw [hat] at hb
    split at hb
    · rename_i heq
      rw [heq, Option.some.inj hb]
    · exact hs.keyed hb
  · rw [hat]
    split
    · exact Option.some_ne_none block
    · rename_i hne
      exact hs.held ((hmem.1 hh).resolve_left (Ne.symm hne))
  · rw [hmem, not_or] at hnot
    rw [hat, if_neg (Ne.symm hnot.1)] at hb
    exact hs.written hb hnot.2

theorem Kept.foldl_add (hs : s.Kept d (· ∈ s.dirty)) (blocks : List FilledBlock) :
    (blocks.foldl FileStore.add s).Kept d (· ∈ (blocks.foldl FileStore.add s).dirty) := by
  induction blocks generalizing s with
  | nil => exact hs
  | cons block blocks ih => exact ih (hs.add block)

/-! ### Writing -/

/-- A write to the file for a queued height, whatever becomes of it. -/
theorem Kept.rewrites (hs : s.Kept d queued) (hk : queued k) (hrewrites : d.Rewrites (· = s.path k) d') :
    s.Kept d' queued := by
  refine ⟨hrewrites.hasDirectory hs.directory, hs.keyed, hs.held, fun {h b} hb hnot => ?_,
    fun {n} hn => ?_, fun {n b} hfound => ?_⟩
  · have hne : s.path h ≠ s.path k := fun heq => hnot (path_inj heq ▸ hk)
    rw [hrewrites.elsewhere hne]
    exact hs.written hb hnot
  · exact fun hdir => hs.legible hn (hrewrites.directory_iff.1 hdir)
  -- what is torn at this height may still decode, but only as the block of this very height
  · by_cases hn : n = BlockFile.name k
    · subst hn
      rw [BlockFile.eq_of_height?_name (BlockFile.found?_eq_some hfound).1]
    · refine hs.named (n := n) (b := b) ?_
      rwa [BlockFile.found?_congr fun _ => hrewrites.elsewhere fun heq => ?_] at hfound
      exact hn (List.cons.inj (List.append_cancel_left heq)).1

/-- What is written need not be queued. -/
theorem Kept.settle (hs : s.Kept d fun h => h = k ∨ queued h) (hb : s.blocks.at? k = some b)
    (hnode : d.node? (s.path k) = some (.file (FilledBlock.binary.write b))) : s.Kept d queued := by
  refine ⟨hs.directory, hs.keyed, fun hh => hs.held (.inr hh), fun {h b'} hb' hnot => ?_, hs.legible,
    hs.named⟩
  by_cases hne : h = k
  · subst hne
    obtain rfl := Option.some.inj (hb.symm.trans hb')
    exact hnode
  · exact hs.written hb' fun hor => hor.elim hne hnot

/-- A block that is written is in its file. -/
theorem node?_of_writeBlock (hb : s.blocks.at? k = some b) (hwrite : s.writeBlock k d = (.ok (), d')) :
    d'.node? (s.path k) = some (.file (FilledBlock.binary.write b)) := by
  rw [writeBlock, show s.blocks.byHeight[k]? = some b from hb] at hwrite
  dsimp only at hwrite
  split at hwrite
  · rename_i hdone
    cases hwrite
    rcases Disk.node?_write hdone with ⟨⟨e, hfail⟩, -⟩ | ⟨kept, hfile, hkept⟩
    · cases hfail
    · rw [hfile, hkept rfl]
  · cases hwrite

/-- Of the blocks that are to be written, those before a failure are no longer queued. -/
theorem Kept.writeBlocks {hs rest : List Nat} (h : s.Kept d (· ∈ hs))
    (hrun : s.writeBlocks d hs = (result, rest, d')) :
    s.Kept d' (· ∈ rest) ∧ (result = .ok () → rest = []) := by
  induction hs generalizing d with
  | nil =>
      cases hrun
      exact ⟨h, fun _ => rfl⟩
  | cons k ks ih =>
      obtain ⟨block, hblock⟩ := Option.ne_none_iff_exists'.1 (h.held List.mem_cons_self)
      have hkept := h.rewrites List.mem_cons_self (s.rewrites_writeBlock k d)
      rw [FileStore.writeBlocks] at hrun
      split at hrun <;> rename_i hwrite <;> rw [hwrite] at hkept
      · refine ih (Kept.settle ?_ hblock (node?_of_writeBlock hblock hwrite)) hrun
        simpa only [List.mem_cons] using hkept
      · cases hrun
        exact ⟨hkept, fun hok => by cases hok⟩

/-- What stays to be written was to be written. -/
theorem mem_of_mem_unwritten {hs : List Nat} (h : k ∈ (s.writeBlocks d hs).2.1) : k ∈ hs := by
  induction hs generalizing d with
  | nil => exact h
  | cons j js ih =>
      rw [FileStore.writeBlocks] at h
      split at h
      · exact List.mem_cons_of_mem j (ih h)
      · exact h

/-- A flush changes the files for the queued heights. -/
theorem rewrites_of_flush (hrun : s.flush d = (result, s', d')) :
    s'.dir = s.dir ∧ s'.blocks = s.blocks ∧ (∀ {k}, k ∈ s'.dirty → k ∈ s.dirty) ∧
      d.Rewrites (fun q => ∃ k ∈ s.dirty, q = s.path k) d' := by
  have hrewrites := s.rewrites_writeBlocks s.dirty.toList d
  cases hrun
  refine ⟨rfl, rfl, fun {k} hk => ?_, ?_⟩
  · rw [Std.ExtTreeSet.mem_ofList] at hk
    exact Std.ExtTreeSet.mem_toList.1 (mem_of_mem_unwritten (by simpa using hk))
  · simpa only [Std.ExtTreeSet.mem_toList] using hrewrites

/-- **A flush keeps what is written, and queued what is not**; when it succeeds, all is written. -/
theorem Kept.flush (h : s.Kept d (· ∈ s.dirty)) (hrun : s.flush d = (result, s', d')) :
    s'.Kept d' (· ∈ s'.dirty) ∧ s'.dir = s.dir ∧ (result = .ok () → ∀ k, k ∉ s'.dirty) := by
  have hqueued : s.Kept d (· ∈ s.dirty.toList) := by
    simpa only [Std.ExtTreeSet.mem_toList] using h
  rcases hwrites : s.writeBlocks d s.dirty.toList with ⟨written, rest, d₁⟩
  rw [FileStore.flush, hwrites] at hrun
  cases hrun
  obtain ⟨hkept, hnil⟩ := hqueued.writeBlocks hwrites
  have hmem : ∀ k, k ∈ Std.ExtTreeSet.ofList rest ↔ k ∈ rest := by simp
  refine ⟨?_, rfl, fun hok k hk => ?_⟩
  · simp only [hmem]
    exact ⟨hkept.directory, hkept.keyed, hkept.held, hkept.written, hkept.legible, hkept.named⟩
  · have hrest := (hmem k).1 hk
    rw [hnil hok] at hrest
    exact absurd hrest List.not_mem_nil

/-! ### Opening -/

/-- The directory is there, and no directory in it is named like a block file. -/
structure Readable (dir : Path) (d : Disk) : Prop where
  directory : d.HasDirectory dir
  legible : ∀ {n}, BlockFile.height? n ≠ none → d.node? (dir ++ [n]) ≠ some .directory

/-- The blocks are those that the files of the directory hold, one for each height. -/
structure Shows (dir : Path) (d : Disk) (blocks : Blocks) : Prop where
  at?_ne_none : ∀ {n b}, BlockFile.found? d dir n = some b → blocks.at? b.height ≠ none
  found : ∀ {h b}, blocks.at? h = some b → b.height = h ∧ ∃ n, BlockFile.found? d dir n = some b

variable {dir : Path}

theorem Kept.readable (hs : s.Kept d queued) : Readable s.dir d :=
  ⟨hs.directory, hs.legible⟩

theorem Readable.rewrites {P : Path → Prop} (hr : Readable dir d) (h : d.Rewrites P d') :
    Readable dir d' :=
  ⟨h.hasDirectory hr.directory, fun hn hdir => hr.legible hn (h.directory_iff.1 hdir)⟩

theorem mem_of_node? {names : List String}
    (hmem : ∀ n, n ∈ names ↔ ∃ node, (dir ++ [n], node) ∈ d.nodes) {n : String} {node : Node}
    (hnode : d.node? (dir ++ [n]) = some node) : n ∈ names :=
  (hmem n).2 (Disk.exists_mem_of_node? (List.append_ne_nil_of_right_ne_nil _ (List.cons_ne_nil _ _))
    (hnode ▸ Option.some_ne_none node))

theorem shows_of_load {names : List String} {blocks : Blocks}
    (hmem : ∀ n, n ∈ names ↔ ∃ node, (dir ++ [n], node) ∈ d.nodes)
    (hload : BlockFile.load d dir names = .ok blocks) : Shows dir d blocks := by
  obtain ⟨-, rfl⟩ := BlockFile.load_eq_ok_iff.1 hload
  refine ⟨fun {n b} hfound => ?_, fun {h b} hb => ?_⟩
  · obtain ⟨-, content, hnode⟩ := BlockFile.found?_eq_some hfound
    have hblock := List.mem_filterMap.2 ⟨n, mem_of_node? hmem hnode, hfound⟩
    rcases Blocks.empty.at?_addAll (names.filterMap (BlockFile.found? d dir)) b.height with
      ⟨block, -, -, hat⟩ | ⟨hnone, -⟩
    · exact hat ▸ Option.some_ne_none block
    · exact absurd rfl (hnone b hblock)
  · rcases Blocks.empty.at?_addAll (names.filterMap (BlockFile.found? d dir)) h with
      ⟨block, hblock, hheight, hat⟩ | ⟨-, hat⟩
    · obtain rfl := Option.some.inj (hb.symm.trans hat)
      obtain ⟨n, -, hn⟩ := List.mem_filterMap.1 hblock
      exact ⟨hheight, n, hn⟩
    · cases hb.symm.trans (hat.trans (Blocks.at?_empty h))

/-- **A directory that can be read is opened**, and what its files hold is found. -/
theorem Readable.openAt (hr : Readable dir d) :
    ∃ blocks, openAt dir d = (.ok ⟨dir, blocks, ∅⟩, d) ∧ Shows dir d blocks := by
  obtain ⟨names, hlist, hmem⟩ := Disk.mem_list hr.directory.node?
  have hlegible : ∀ n ∈ names, BlockFile.Legible d dir n := by
    intro n hn hheight
    obtain ⟨node, hnode⟩ := (hmem n).1 hn
    cases hat : d.node? (dir ++ [n]) with
    | none => exact absurd hat (Disk.node?_ne_none_of_mem hnode)
    | some node =>
        cases node with
        | directory => exact absurd hat (hr.legible hheight)
        | file content => exact ⟨content, rfl⟩
  have hload := BlockFile.load_eq_ok_iff.2 ⟨hlegible, rfl⟩
  refine ⟨_, ?_, shows_of_load hmem hload⟩
  rw [FileStore.openAt, Disk.createDirectories_eq hr.directory]
  dsimp only
  rw [hlist]
  dsimp only
  rw [hload]

/-- A directory that is opened can be read, and nothing is queued. -/
theorem readable_of_openAt (hopen : FileStore.openAt dir d = (.ok s, d')) :
    Readable dir d' ∧ s.dir = dir ∧ s.dirty = ∅ ∧ Shows dir d' s.blocks := by
  obtain ⟨hmade, names, blocks, hlist, hload, rfl⟩ := openAt_ok hopen
  have hdir := (Disk.createDirectories_ok hmade).2.1
  obtain ⟨names', hlist', hmem⟩ := Disk.mem_list hdir.node?
  obtain rfl := Except.ok.inj (hlist.symm.trans hlist')
  refine ⟨⟨hdir, fun {n} hn hnode => ?_⟩, rfl, rfl, shows_of_load hmem hload⟩
  obtain ⟨content, hfile⟩ := (BlockFile.load_eq_ok_iff.1 hload).1 n (mem_of_node? hmem hnode) hn
  cases hnode.symm.trans hfile

/-- **Whenever the directory is opened again, the blocks that are not queued are found.** -/
theorem Kept.openAt (hs : s.Kept d queued) :
    ∃ blocks, openAt s.dir d = (.ok ⟨s.dir, blocks, ∅⟩, d) ∧
      ∀ {h b}, s.blocks.at? h = some b → ¬queued h →
        (FilledBlock.binary.write b).length < UInt64.size → blocks.at? h = some b := by
  obtain ⟨blocks, hopened, hshows⟩ := hs.readable.openAt
  refine ⟨blocks, hopened, fun {h b} hb hnot hfits => ?_⟩
  obtain rfl := hs.keyed hb
  have hfound : BlockFile.found? d s.dir (BlockFile.name b.height) = some b := by
    rw [BlockFile.found?_eq (hs.height?_name hb) (hs.written hb hnot), BlockFile.block?_write hfits]
  -- only the file for the height contributes a block there, and it holds this one
  obtain ⟨b', hb'⟩ := Option.ne_none_iff_exists'.1 (hshows.at?_ne_none hfound)
  obtain ⟨hheight, n, hn⟩ := hshows.found hb'
  rw [hs.named hn, hheight, hfound] at hn
  rw [hb', hn]

/-- A store is kept when it is opened and nothing is found. -/
theorem kept_of_openAt (hopen : FileStore.openAt dir d = (.ok ⟨dir, .empty, ∅⟩, d')) :
    (⟨dir, .empty, ∅⟩ : FileStore).Kept d' (· ∈ (∅ : Std.ExtTreeSet Nat)) := by
  obtain ⟨hr, -, -, hshows⟩ := readable_of_openAt hopen
  refine ⟨hr.directory, fun {h b} hb => ?_, fun {h} hh => ?_, fun {h b} hb => ?_, hr.legible,
    fun {n b} hfound => absurd (Blocks.at?_empty b.height) (hshows.at?_ne_none hfound)⟩
  · cases (Blocks.at?_empty h).symm.trans hb
  · exact absurd hh (by simp)
  · cases (Blocks.at?_empty h).symm.trans hb

end FileStore
end WatchWallet
