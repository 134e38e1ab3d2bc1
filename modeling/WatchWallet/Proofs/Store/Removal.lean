import Mathlib.Tactic.Common
import WatchWallet.Proofs.Store.Calls

/-!
# Store — Removal

When a removal lasts (`FileStore.removal_lasts_iff`).  A removal takes away the files for the heights that
the store holds, each under the one name that it gives to the height, and it forgets the blocks before.  So
a block comes back when the directory is opened again, if its file has another name, or if an earlier
removal forgot it and failed before its file was gone; then the next removal finds nothing to do and
succeeds.
-/

namespace WatchWallet.FileStore

variable {s s' : FileStore} {d d' d'' : Disk} {dir : Path} {h k : Nat}
  {result : Except SyncError Unit}

/-- Each block that the files of the directory hold at a height or above is in the store, and in the file
that the store has for its height. -/
def Governs (s : FileStore) (h : Nat) (d : Disk) : Prop :=
  ∀ n b, BlockFile.found? d s.dir n = some b → h ≤ b.height →
    n = BlockFile.name b.height ∧ s.blocks.at? b.height ≠ none

/-- The store holds nothing at a height or above, and has nothing to write there. -/
structure EndsAt (s : FileStore) (h : Nat) : Prop where
  blocks : ∀ {k}, h ≤ k → s.blocks.at? k = none
  dirty : ∀ {k}, k ∈ s.dirty → k < h

/-- The files that are named for a height or above are the same. -/
def SameFrom (dir : Path) (h : Nat) (d d' : Disk) : Prop :=
  ∀ {n k}, BlockFile.height? n = some k → h ≤ k → d'.node? (dir ++ [n]) = d.node? (dir ++ [n])

theorem SameFrom.trans (h₁ : SameFrom dir h d d') (h₂ : SameFrom dir h d' d'') :
    SameFrom dir h d d'' :=
  fun hn hle => (h₂ hn hle).trans (h₁ hn hle)

/-- Changes to the files for lower heights do not reach those above. -/
theorem sameFrom_of_rewrites (hrewrites : d.Rewrites (fun q => ∃ k, k < h ∧ q = s.path k) d') :
    SameFrom s.dir h d d' := by
  intro n k hn hle
  refine hrewrites.elsewhere ?_
  rintro ⟨j, hlt, heq⟩
  obtain rfl : n = BlockFile.name j := (List.cons.inj (List.append_cancel_left heq)).1
  have hj := BlockFile.eq_of_height?_name hn
  omega

theorem SameFrom.found?_iff (hsame : SameFrom dir h d d') {n : String} {b : FilledBlock}
    (hle : h ≤ b.height) :
    BlockFile.found? d' dir n = some b ↔ BlockFile.found? d dir n = some b := by
  have hkept : ∀ {n}, BlockFile.height? n = some b.height →
      BlockFile.found? d' dir n = BlockFile.found? d dir n :=
    fun hn => BlockFile.found?_congr fun _ => hsame hn hle
  constructor <;> intro hfound
  · rwa [hkept (BlockFile.found?_eq_some hfound).1] at hfound
  · rwa [hkept (BlockFile.found?_eq_some hfound).1]

/-- There is nothing to remove where nothing is held. -/
theorem EndsAt.removeFrom_eq (hs : s.EndsAt h) (d : Disk) : s.removeFrom h d = (.ok (), s, d) := by
  have hnone : s.blocks.heightsFrom h = [] := by
    refine List.eq_nil_iff_forall_not_mem.2 fun k hk => ?_
    obtain ⟨hle, hne⟩ := Blocks.mem_heightsFrom.1 hk
    exact hne (hs.blocks hle)
  have hblocks : s.blocks.below h = s.blocks := by
    refine Blocks.ext_at? fun k => ?_
    rw [Blocks.at?_below]
    split
    · rfl
    · exact (hs.blocks (Nat.not_lt.1 ‹_›)).symm
  have hdirty : s.dirty.filter (· < h) = s.dirty := by
    refine Std.ExtTreeSet.ext_mem fun k => ?_
    rw [Std.ExtTreeSet.mem_filter]
    exact ⟨fun ⟨hk, _⟩ => hk, fun hk => ⟨hk, by simpa using hs.dirty hk⟩⟩
  rw [removeFrom, hnone, hblocks, hdirty]
  rfl

/-- What a removal leaves, whatever becomes of it. -/
theorem Removes.endsAt (hremoves : s.Removes h d result s' d') : s'.EndsAt h := by
  refine ⟨fun {k} hk => ?_, fun {k} hk => (hremoves.mem_dirty.1 hk).2⟩
  rw [hremoves.blocks, Blocks.at?_below, if_neg (Nat.not_lt.2 hk)]

/-! ### What later calls change -/

/-- A store that ends at a height still does, and the files above it are as they were, after whichever calls
that add no block there. -/
theorem EndsAt.calls {t : BlockStore} {calls : List StoreCall} (hs : s.EndsAt h) (hr : Readable s.dir d)
    (hcalls : BlockStore.Calls (fun _ _ => True) (.file s) d calls t d')
    (hbelow : ∀ block, .add block ∈ calls → block.height < h) :
    Readable s.dir d' ∧ SameFrom s.dir h d d' := by
  have hend := hcalls.keep (Q := fun t d' => t.dir = s.dir ∧ t.EndsAt h ∧ Readable s.dir d' ∧
    SameFrom s.dir h d d') ⟨rfl, hs, hr, fun _ _ => rfl⟩ ?_ ?_ ?_
  · obtain ⟨-, -, -, -, hr', hsame⟩ := hend
    exact ⟨hr', hsame⟩
  · rintro t d' block hmem ⟨hdir, ht, hr', hsame⟩
    have hlt := hbelow block hmem
    refine ⟨hdir, ⟨fun {k} hk => ?_, fun {k} hk => ?_⟩, hr', hsame⟩
    · refine (t.blocks.at?_add block k).trans ?_
      rw [if_neg (by omega)]
      exact ht.blocks hk
    · rcases Std.ExtTreeSet.mem_insert.1 hk with heq | hold
      · rw [← Nat.compare_eq_eq.1 heq]
        exact hlt
      · exact ht.dirty hold
  · rintro t t' d' d'' k result ⟨hdir, ht, hr', hsame⟩ hrun -
    have hremoves := removes_of_removeFrom (hdir ▸ hr'.directory) hrun
    have hrewrites : d'.Rewrites (fun q => ∃ j, j < h ∧ q = t.path j) d'' := by
      refine hremoves.prunes.toRewrites.mono ?_
      rintro q ⟨j, ⟨-, hne⟩, rfl⟩
      exact ⟨j, Nat.lt_of_not_le fun hle => hne (ht.blocks hle), rfl⟩
    refine ⟨hremoves.dir.trans hdir, ⟨fun {j} hj => ?_, fun {j} hj => ?_⟩, hr'.rewrites hrewrites,
      hsame.trans (hdir ▸ sameFrom_of_rewrites hrewrites)⟩
    · rw [hremoves.blocks, Blocks.at?_below, ht.blocks hj, ite_self]
    · exact ht.dirty (hremoves.mem_dirty.1 hj).1
  · rintro t t' d' d'' result ⟨hdir, ht, hr', hsame⟩ hrun -
    obtain ⟨hdir', hblocks, hdirty, hrewrites⟩ := rewrites_of_flush hrun
    have hbelow' : d'.Rewrites (fun q => ∃ j, j < h ∧ q = t.path j) d'' := by
      refine hrewrites.mono ?_
      rintro q ⟨j, hj, rfl⟩
      exact ⟨j, ht.dirty hj, rfl⟩
    exact ⟨hdir'.trans hdir, ⟨fun hj => hblocks ▸ ht.blocks hj, fun hj => ht.dirty (hdirty hj)⟩,
      hr'.rewrites hbelow', hsame.trans (hdir ▸ sameFrom_of_rewrites hbelow')⟩

/-- After a removal that succeeds, the files hold the blocks that the store did not govern. -/
theorem Removes.found?_iff (hremoves : s.Removes h d (.ok ()) s' d') {n : String} {b : FilledBlock}
    (hle : h ≤ b.height) : BlockFile.found? d' s.dir n = some b ↔
      BlockFile.found? d s.dir n = some b ∧
        ¬(n = BlockFile.name b.height ∧ s.blocks.at? b.height ≠ none) := by
  constructor
  · intro hfound
    obtain ⟨-, content, hnode⟩ := BlockFile.found?_eq_some hfound
    have hthere : d'.node? (s.dir ++ [n]) ≠ none := hnode ▸ Option.some_ne_none _
    refine ⟨?_, ?_⟩
    · rw [← hfound]
      exact (BlockFile.found?_congr fun _ => hremoves.prunes.node?_eq hthere).symm
    · rintro ⟨rfl, hne⟩
      exact hthere (hremoves.gone rfl hle hne)
  · rintro ⟨hfound, hnot⟩
    rw [← hfound]
    refine BlockFile.found?_congr fun _ => hremoves.prunes.elsewhere ?_
    rintro ⟨j, ⟨-, hne⟩, heq⟩
    obtain rfl : n = BlockFile.name j := (List.cons.inj (List.append_cancel_left heq)).1
    obtain rfl := BlockFile.eq_of_height?_name (BlockFile.found?_eq_some hfound).1
    exact hnot ⟨rfl, hne⟩

/-- **When a removal lasts.**  A store is opened in any directory and called in any order, and whatever
changes a file may fail.  A removal that succeeds lasts, whatever is done afterwards without adding a block
there, exactly if the store governed the blocks of the directory at these heights.  A removal that fails
leaves a file that it should have removed, and it leaves a store that has nothing to remove any more: the
same removal succeeds next, and does nothing. -/
theorem removal_lasts_iff {d₀ d₁ : Disk} {s₀ : FileStore} {calls : List StoreCall}
    (hopen : FileStore.openAt dir d₀ = (.ok s₀, d₁))
    (hcalls : BlockStore.Calls (fun _ _ => True) (.file s₀) d₁ calls (.file s) d)
    (hrun : s.removeFrom h d = (result, s', d')) :
    (result = .ok () → ∀ {later t d''},
      BlockStore.Calls (fun _ _ => True) (.file s') d' later t d'' →
      (∀ block, .add block ∈ later → block.height < h) →
      ∃ blocks, FileStore.openAt dir d'' = (.ok ⟨dir, blocks, ∅⟩, d'') ∧
        ((∀ k, h ≤ k → blocks.at? k = none) ↔ s.Governs h d)) ∧
    ∀ e, result = .error e →
      (∃ k, h ≤ k ∧ s.blocks.at? k ≠ none ∧ d.node? (s.path k) ≠ none ∧
        d'.node? (s.path k) = d.node? (s.path k)) ∧
      s'.removeFrom h d' = (.ok (), s', d') := by
  obtain ⟨hr₀, hdir₀, -, -⟩ := readable_of_openAt hopen
  obtain ⟨t, ht, hdir, hr⟩ := hcalls.keep (Q := fun s d => s.dir = dir ∧ Readable dir d) ⟨hdir₀, hr₀⟩
    (fun _ hs => hs)
    (fun hs hremove _ => by
      have hremoves := removes_of_removeFrom (hs.1 ▸ hs.2.directory) hremove
      exact ⟨hremoves.dir.trans hs.1, hs.2.rewrites hremoves.prunes.toRewrites⟩)
    (fun hs hflush _ => by
      obtain ⟨hdir, -, -, hrewrites⟩ := rewrites_of_flush hflush
      exact ⟨hdir.trans hs.1, hs.2.rewrites hrewrites⟩)
  obtain rfl := BlockStore.file.inj ht
  subst hdir
  have hremoves := removes_of_removeFrom hr.directory hrun
  refine ⟨fun hok later t d'' hlater hbelow => ?_, fun e he =>
    ⟨hremoves.left he, hremoves.endsAt.removeFrom_eq d'⟩⟩
  subst hok
  obtain ⟨hr'', hsame⟩ := hremoves.endsAt.calls
    (hremoves.dir ▸ hr.rewrites hremoves.prunes.toRewrites) hlater hbelow
  rw [hremoves.dir] at hr'' hsame
  obtain ⟨blocks, hopened, hshows⟩ := hr''.openAt
  refine ⟨blocks, hopened, fun hnone n b hfound hle => ?_, fun hgoverns k hle => ?_⟩
  · by_contra hnot
    have hback := (hsame.found?_iff hle).2 ((hremoves.found?_iff hle).2 ⟨hfound, hnot⟩)
    exact hshows.at?_ne_none hback (hnone b.height hle)
  · refine Option.eq_none_iff_forall_ne_some.2 fun b hb => ?_
    obtain ⟨rfl, n, hn⟩ := hshows.found hb
    obtain ⟨hfound, hnot⟩ := (hremoves.found?_iff hle).1 ((hsame.found?_iff hle).1 hn)
    exact hnot (hgoverns n b hfound hle)

/-- A block without transactions. -/
def emptyBlock (hash : String) (height : UInt32) : FilledBlock := ⟨⟨hash, height, .epoch⟩, []⟩

/-- Two block files, the second under a name that the store does not give. -/
def twoFiles (outcomes : List Outcome) : Disk where
  nodes := [(["d"], .directory),
    (["d", "block_0000000006.bin"], .file (FilledBlock.binary.write (emptyBlock "g" 6))),
    (["d", "block_5.bin"], .file (FilledBlock.binary.write (emptyBlock "f" 5)))]
  outcomes

theorem found?_twoFiles (outcomes : List Outcome) :
    BlockFile.found? (twoFiles outcomes) ["d"] "block_0000000006.bin" = some (emptyBlock "g" 6) ∧
      BlockFile.found? (twoFiles outcomes) ["d"] "block_5.bin" = some (emptyBlock "f" 5) := by
  have hlength : (FilledBlock.binary.write (emptyBlock "g" 6)).length < 100 ∧
      (FilledBlock.binary.write (emptyBlock "f" 5)).length < 100 := by decide +kernel
  have hsize : 100 < UInt64.size := by decide
  have hsix : BlockFile.height? "block_0000000006.bin" = some (emptyBlock "g" 6).height := rfl
  have hfive : BlockFile.height? "block_5.bin" = some (emptyBlock "f" 5).height := rfl
  constructor
  · rw [BlockFile.found?_eq hsix (by rfl)]
    exact BlockFile.block?_write (Nat.lt_trans hlength.1 hsize)
  · rw [BlockFile.found?_eq hfive (by rfl)]
    exact BlockFile.block?_write (Nat.lt_trans hlength.2 hsize)

/-- The store that the directory is opened as. -/
def twoFilesStore : FileStore :=
  ⟨["d"], (Blocks.empty.add (emptyBlock "g" 6)).add (emptyBlock "f" 5), ∅⟩

theorem openAt_twoFiles (outcomes : List Outcome) :
    FileStore.openAt ["d"] (twoFiles outcomes) = (.ok twoFilesStore, twoFiles outcomes) := by
  obtain ⟨hsix, hfive⟩ := found?_twoFiles outcomes
  have hmade : (twoFiles outcomes).createDirectories ["d"] = .ok (twoFiles outcomes) := rfl
  have hordered : ["block_0000000006.bin", "block_5.bin"].Pairwise fun a b => !(b < a) := by decide
  have hlist : (twoFiles outcomes).list ["d"] = .ok ["block_0000000006.bin", "block_5.bin"] :=
    congrArg Except.ok (List.mergeSort_of_pairwise hordered)
  have hlegible : ∀ n ∈ ["block_0000000006.bin", "block_5.bin"],
      BlockFile.Legible (twoFiles outcomes) ["d"] n := by
    intro n hn _
    rcases List.mem_cons.1 hn with rfl | hn
    · exact ⟨_, rfl⟩
    · obtain rfl := List.mem_singleton.1 hn
      exact ⟨_, rfl⟩
  have hload := BlockFile.load_eq_ok_iff.2 ⟨hlegible, rfl⟩
  rw [List.filterMap_cons_some hsix, List.filterMap_cons_some hfive] at hload
  rw [FileStore.openAt, hmade]
  dsimp only
  rw [hlist]
  dsimp only
  rw [hload]
  rfl

/-- Both blocks are removed, which fails, and removed again, which succeeds; both are back when the
directory is opened again. -/
theorem removal_lasts_iff_twoFiles :
    ∃ e s₁, twoFilesStore.removeFrom 5 (twoFiles [.refused]) = (.error e, s₁, twoFiles []) ∧
      s₁.removeFrom 5 (twoFiles []) = (.ok (), s₁, twoFiles []) ∧ ¬s₁.Governs 5 (twoFiles []) ∧
      ∃ blocks, FileStore.openAt ["d"] (twoFiles []) = (.ok ⟨["d"], blocks, ∅⟩, twoFiles []) ∧
        blocks.at? 5 ≠ none ∧ blocks.at? 6 ≠ none := by
  obtain ⟨hfailed, hleft⟩ : (twoFilesStore.removeFrom 5 (twoFiles [.refused])).1.isOk = false ∧
      (twoFilesStore.removeFrom 5 (twoFiles [.refused])).2.2 = twoFiles [] := by
    unfold twoFiles
    generalize FilledBlock.binary.write (emptyBlock "g" 6) = six
    generalize FilledBlock.binary.write (emptyBlock "f" 5) = five
    exact ⟨rfl, rfl⟩
  rcases hfirst : twoFilesStore.removeFrom 5 (twoFiles [.refused]) with ⟨e | u, s₁, d₁⟩ <;>
    rw [hfirst] at hfailed hleft
  case ok => cases hfailed
  obtain rfl : d₁ = twoFiles [] := hleft
  have hopen := openAt_twoFiles [.refused]
  obtain ⟨-, hagain⟩ := (removal_lasts_iff hopen (.nil _ _) hfirst).2 e rfl
  have hcall : (BlockStore.file twoFilesStore).call (twoFiles [.refused]) (.removeFrom 5) =
      (.error e, .file s₁, twoFiles []) := by
    rw [BlockStore.call, BlockStore.removeFrom, hfirst]
  obtain ⟨blocks, hopened, hiff⟩ := (removal_lasts_iff hopen
    (.cons hcall trivial (.nil _ _)) hagain).1 rfl (.nil _ _)
    fun _ hmem => absurd hmem List.not_mem_nil
  have hshows := (readable_of_openAt hopened).2.2.2
  obtain ⟨hsix, hfive⟩ := found?_twoFiles []
  have hback : blocks.at? 5 ≠ none ∧ blocks.at? 6 ≠ none :=
    ⟨hshows.at?_ne_none hfive, hshows.at?_ne_none hsix⟩
  exact ⟨e, s₁, rfl, hagain, fun hgoverns => hback.1 (hiff.2 hgoverns 5 (Nat.le_refl 5)), blocks, hopened,
    hback⟩

end WatchWallet.FileStore
