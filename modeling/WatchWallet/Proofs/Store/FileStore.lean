import WatchWallet.Proofs.Store.BlockFile

/-!
# Store — File store

On a disk where no change fails, the files of a store are its blocks, those apart whose heights are
queued (`FileStore.Files`).  A flush writes what is queued and fails not (`files_flush`), and a store
without queued heights is what is found when its directory is opened again (`openAt_eq`).
-/

namespace WatchWallet

namespace FileStore

/-- The files in the directory of the store are its blocks, those apart at the heights still to be
written, and no other name there is that of a block file. -/
structure Files (s : FileStore) (d : Disk) (queued : Nat → Prop) : Prop where
  directory : d.HasDirectory s.dir
  written : ∀ h, ¬queued h → d.node? (s.path h) =
    (s.blocks.at? h).map fun b => .file (FilledBlock.binary.write b)
  unwritten : ∀ h, queued h → d.node? (s.path h) ≠ some .directory ∧ s.blocks.at? h ≠ none
  named : ∀ name n, (s.dir ++ [name], n) ∈ d.nodes → ∀ h, BlockFile.height? name = some h →
    name = BlockFile.name h

variable {s : FileStore} {d : Disk} {queued : Nat → Prop} {h k : Nat}

theorem path_ne_nil (s : FileStore) (h : Nat) : s.path h ≠ [] :=
  List.append_ne_nil_of_right_ne_nil _ (List.cons_ne_nil _ _)

theorem path_inj (heq : s.path h = s.path k) : h = k :=
  BlockFile.name_inj (List.cons.inj (List.append_cancel_left heq)).1

theorem Files.not_directory (hs : s.Files d queued) (h : Nat) :
    d.node? (s.path h) ≠ some .directory := by
  by_cases hh : queued h
  · exact (hs.unwritten h hh).1
  · rw [hs.written h hh]
    cases s.blocks.at? h with
    | none => exact nofun
    | some b => exact nofun

/-- A new block is queued. -/
theorem Files.add (hs : s.Files d (· ∈ s.dirty)) (block : FilledBlock) :
    (s.add block).Files d (· ∈ (s.add block).dirty) := by
  have hmem : ∀ h, h ∈ (s.add block).dirty ↔ block.height = h ∨ h ∈ s.dirty := by
    intro h
    show h ∈ s.dirty.insert block.height ↔ _
    rw [Std.ExtTreeSet.mem_insert, Nat.compare_eq_eq]
  refine ⟨hs.directory, fun h hh => ?_, fun h hh => ⟨hs.not_directory h, ?_⟩, hs.named⟩
  · rw [hmem, not_or] at hh
    show d.node? (s.path h) = ((s.blocks.add block).at? h).map _
    rw [hs.written h hh.2, Blocks.at?_add, if_neg (Ne.symm hh.1)]
  · show (s.blocks.add block).at? h ≠ none
    rw [Blocks.at?_add]
    split
    · exact Option.some_ne_none block
    · rename_i hne
      exact (hs.unwritten h (((hmem h).1 hh).resolve_left (Ne.symm hne))).2

theorem Files.foldl_add (hs : s.Files d (· ∈ s.dirty)) (blocks : List FilledBlock) :
    (blocks.foldl FileStore.add s).Files d (· ∈ (blocks.foldl FileStore.add s).dirty) := by
  induction blocks generalizing s with
  | nil => exact hs
  | cons block blocks ih => exact ih (hs.add block)

theorem dir_foldl_add (s : FileStore) (blocks : List FilledBlock) :
    (blocks.foldl add s).dir = s.dir := by
  induction blocks generalizing s with
  | nil => rfl
  | cons block blocks ih => exact ih (s.add block)

/-- A block is written to the file for its height. -/
theorem Files.put {block : FilledBlock} (hs : s.Files d fun k => k = h ∨ queued k)
    (hblock : s.blocks.at? h = some block) :
    s.Files (d.put (s.path h) (.file (FilledBlock.binary.write block))) queued := by
  have hself : (d.put (s.path h) (.file (FilledBlock.binary.write block))).node? (s.path h) =
      some (.file (FilledBlock.binary.write block)) := by
    rw [Disk.node?_put (s.path_ne_nil h), if_pos rfl]
  have hother : ∀ k, k ≠ h → (d.put (s.path h) (.file (FilledBlock.binary.write block))).node?
      (s.path k) = d.node? (s.path k) := by
    intro k hk
    rw [Disk.node?_put (s.path_ne_nil h), if_neg fun e => hk (path_inj e)]
  refine ⟨hs.directory.put (s.path_ne_nil h) (Disk.append_not_mem_ancestors s.dir _), fun k hk => ?_,
    fun k hk => ⟨?_, (hs.unwritten k (.inr hk)).2⟩, fun name n hn k hname => ?_⟩
  · by_cases he : k = h
    · rw [he, hself, hblock]
      rfl
    · rw [hother k he]
      exact hs.written k fun hor => hor.elim he hk
  · by_cases he : k = h
    · rw [he, hself]
      exact nofun
    · rw [hother k he]
      exact hs.not_directory k
  · rcases Disk.mem_nodes_put hn with ⟨hpath, -⟩ | hn
    · obtain rfl := (List.cons.inj (List.append_cancel_left hpath)).1
      rw [BlockFile.eq_of_height?_name hname]
    · exact hs.named name n hn k hname

/-- Writing the queued blocks fails not when no change fails, and changes nothing but their files. -/
theorem files_writeBlocks (hdone : d.outcomes = []) {hs : List Nat} (h : s.Files d (· ∈ hs)) :
    ∃ d', s.writeBlocks d hs = (.ok (), [], d') ∧ d'.outcomes = [] ∧
      s.Files d' (fun _ => False) ∧ ∀ p, (∀ k, p ≠ s.path k) → d'.node? p = d.node? p := by
  induction hs generalizing d with
  | nil => exact ⟨d, rfl, hdone, ⟨h.directory, fun k _ => h.written k List.not_mem_nil, nofun, h.named⟩,
      fun _ _ => rfl⟩
  | cons k ks ih =>
      obtain ⟨block, hblock⟩ := Option.ne_none_iff_exists'.1 (h.unwritten k List.mem_cons_self).2
      have hdir : d.node? (s.path k).dropLast = some .directory := by
        rw [path, List.dropLast_concat]
        exact h.directory.node?
      have hwrite : s.writeBlock k d =
          (.ok (), d.put (s.path k) (.file (FilledBlock.binary.write block))) := by
        rw [writeBlock, show s.blocks.byHeight[k]? = some block from hblock]
        dsimp only
        rw [Disk.write_eq hdone hdir (h.not_directory k)]
      have hput : s.Files (d.put (s.path k) (.file (FilledBlock.binary.write block))) (· ∈ ks) :=
        Files.put (by simpa only [List.mem_cons] using h) hblock
      obtain ⟨d', hd', hdone', hfiles, hsame⟩ := ih (by exact hdone) hput
      refine ⟨d', ?_, hdone', hfiles, fun p hp => ?_⟩
      · rw [writeBlocks, hwrite]
        exact hd'
      · rw [hsame p hp, Disk.node?_put (s.path_ne_nil k), if_neg (hp k)]

/-- **A flush writes what is queued.** -/
theorem files_flush (hdone : d.outcomes = []) (h : s.Files d (· ∈ s.dirty)) :
    ∃ d', s.flush d = (.ok (), { s with dirty := ∅ }, d') ∧ d'.outcomes = [] ∧
      s.Files d' (fun _ => False) ∧ ∀ p, (∀ k, p ≠ s.path k) → d'.node? p = d.node? p := by
  have hqueued : s.Files d (· ∈ s.dirty.toList) := by
    simpa only [Std.ExtTreeSet.mem_toList] using h
  obtain ⟨d', hd', hdone', hfiles, hsame⟩ := files_writeBlocks hdone hqueued
  refine ⟨d', ?_, hdone', hfiles, hsame⟩
  rw [flush, hd']
  rfl

/-- **A store without queued heights is found again when its directory is opened.** -/
theorem openAt_eq (h : s.Files d fun _ => False)
    (hkeys : ∀ {h b}, s.blocks.at? h = some b → b.height = h)
    (hfits : ∀ {h b}, s.blocks.at? h = some b →
      (FilledBlock.binary.write b).length < UInt64.size) :
    openAt s.dir d = (.ok ⟨s.dir, s.blocks, ∅⟩, d) := by
  obtain ⟨names, hlist, hmem⟩ := Disk.mem_list h.directory.node?
  -- a file with the name of a block holds the block of the store, and every block has one
  have hnames : ∀ n ∈ names, BlockFile.Holds d s.dir s.blocks n := by
    intro n hn k hk
    obtain ⟨node, hnode⟩ := (hmem n).1 hn
    obtain rfl := h.named n node hnode k hk
    have hwritten := h.written k id
    cases hblock : s.blocks.at? k with
    | none =>
        rw [hblock] at hwritten
        exact absurd hwritten (Disk.node?_ne_none_of_mem hnode)
    | some block =>
        rw [hblock] at hwritten
        exact ⟨block, hkeys hblock, rfl, hfits hblock, hwritten⟩
  have hall : ∀ k block, s.blocks.at? k = some block →
      k < UInt32.size ∧ BlockFile.name k ∈ names := by
    intro k block hblock
    have hne : d.node? (s.path k) ≠ none := by
      rw [h.written k id, hblock]
      exact Option.some_ne_none _
    exact ⟨hkeys hblock ▸ block.header.height.toNat_lt,
      (hmem _).2 (Disk.exists_mem_of_node? (s.path_ne_nil k) hne)⟩
  obtain ⟨blocks, hload, hat⟩ := BlockFile.load_eq hnames hall
  rw [openAt, Disk.createDirectories_eq h.directory]
  dsimp only
  rw [hlist]
  dsimp only
  rw [hload, Blocks.ext_at? hat]

/-- **A directory without files is opened as a store without blocks.** -/
theorem openAt_of_forall_not_mem {dir : Path} (hdir : d.HasDirectory dir)
    (hnone : ∀ name n, (dir ++ [name], n) ∉ d.nodes) :
    openAt dir d = (.ok ⟨dir, .empty, ∅⟩, d) := by
  have hfiles : (⟨dir, .empty, ∅⟩ : FileStore).Files d fun _ => False := by
    refine ⟨hdir, fun h _ => ?_, nofun, fun name n hn => absurd hn (hnone name n)⟩
    rw [Blocks.at?_empty, Option.map_none]
    by_contra hne
    obtain ⟨n, hn⟩ := Disk.exists_mem_of_node? (path_ne_nil _ h) hne
    exact hnone _ n hn
  have hempty : ∀ {h b}, Blocks.empty.at? h ≠ some b := fun {h b} hb => by
    cases (Blocks.at?_empty h).symm.trans hb
  exact openAt_eq hfiles (fun hb => absurd hb hempty) (fun hb => absurd hb hempty)

/-- On a disk with one directory and nothing else, a store without blocks is opened. -/
theorem openAt_oneDirectory (name : String) (outcomes : List Outcome) :
    let d : Disk := ⟨[([name], .directory)], outcomes⟩
    openAt [name] d = (.ok ⟨[name], .empty, ∅⟩, d) := by
  intro d
  have hself : d.node? [name] = some .directory := by
    rw [Disk.node?_of_ne (List.cons_ne_nil _ _), List.lookup_cons_self]
  refine openAt_of_forall_not_mem (List.forall_mem_cons.2 ⟨d.node?_nil, ?_⟩) fun _ n hn => ?_
  · exact List.forall_mem_singleton.2 hself
  · cases List.mem_singleton.1 hn

/-- What a store comes from when it is opened. -/
theorem openAt_ok {dir : Path} {d' : Disk} (h : openAt dir d = (.ok s, d')) :
    d.createDirectories dir = .ok d' ∧ ∃ names blocks, d'.list dir = .ok names ∧
      BlockFile.load d' dir names = .ok blocks ∧ s = ⟨dir, blocks, ∅⟩ := by
  unfold openAt at h
  split at h
  · cases h
  · rename_i hmade
    split at h
    · cases h
    · rename_i names hlist
      split at h
      · cases h
      · rename_i blocks hload
        cases h
        exact ⟨hmade, names, blocks, hlist, hload, rfl⟩

end FileStore

namespace BlockStore

theorem foldl_add_file (s : FileStore) (blocks : List FilledBlock) :
    blocks.foldl add (file s) = file (blocks.foldl FileStore.add s) := by
  induction blocks generalizing s with
  | nil => rfl
  | cons block blocks ih => exact ih (s.add block)

end BlockStore
end WatchWallet
