import Mathlib.Tactic.Common
import WatchWallet.Proofs.Store.Durability
import WatchWallet.Proofs.Window.Advance
import WatchWallet.Proofs.Window.Completeness

/-!
# Store — Crash safety

When a wallet stops in the middle of its work, the files of its store may be behind the blocks in memory,
but they are never ahead of a gap: the heights on the disk are the first ones of those in memory
(`FileStore.Trails`).  Windows start at or above every block there is and finish their heights in
ascending order; a flush writes what is queued in ascending order and stops at the first failure.  So it
holds at every moment (`FileStore.Course.trails`), and a directory that is opened again has no gap below
its last block (`FileStore.resumes_without_gap`).
-/

namespace WatchWallet

variable {d d' : Disk}

/-- A write that fails leaves everything as it was. -/
def Disk.Whole (d : Disk) : Prop :=
  ∀ kept, .torn kept ∉ d.outcomes

theorem Disk.Whole.write (h : d.Whole) (p : Path) (content : Bytes) :
    (d.write p content).2.Whole ∧
      ((d.write p content).1 = .ok () ∨ (d.write p content).2.nodes = d.nodes) := by
  unfold Disk.write
  split
  · exact ⟨h, .inr rfl⟩
  · exact ⟨h, .inr rfl⟩
  · unfold nextOutcome
    rcases hout : d.outcomes with _ | ⟨o, os⟩
    · exact ⟨h, .inl rfl⟩
    · have hrest : ∀ kept, .torn kept ∉ os := fun kept hmem =>
        h kept (hout ▸ List.mem_cons_of_mem o hmem)
      cases o with
      | done => exact ⟨hrest, .inl rfl⟩
      | refused => exact ⟨hrest, .inr rfl⟩
      | torn kept => exact absurd (hout ▸ List.mem_cons_self) (h kept)

/-- Of two ascending lists, one is a front of the other when it has every number of the other up to each of
its own. -/
theorem front_of_ascending {l m : List Nat} (hl : l.Pairwise (· < ·)) (hm : m.Pairwise (· < ·))
    (hsub : ∀ x ∈ l, x ∈ m) (hdown : ∀ x ∈ l, ∀ y ∈ m, y ≤ x → y ∈ l) : l <+: m := by
  induction l generalizing m with
  | nil => exact List.nil_prefix
  | cons a l ih =>
      obtain ⟨ha, hl'⟩ := List.pairwise_cons.1 hl
      cases m with
      | nil => exact absurd (hsub a List.mem_cons_self) List.not_mem_nil
      | cons c m =>
          obtain ⟨hc, hm'⟩ := List.pairwise_cons.1 hm
          -- both lists begin with their least number
          have hle : c ≤ a := by
            rcases List.mem_cons.1 (hsub a List.mem_cons_self) with heq | hmem
            · exact Nat.le_of_eq heq.symm
            · exact Nat.le_of_lt (hc a hmem)
          have heq : c = a := by
            rcases List.mem_cons.1 (hdown a List.mem_cons_self c List.mem_cons_self hle) with heq | hmem
            · exact heq
            · exact absurd (ha c hmem) (Nat.not_lt.2 hle)
          subst heq
          refine List.cons_prefix_cons.2 ⟨rfl, ih hl' hm' (fun x hx => ?_) fun x hx y hy hyx => ?_⟩
          · exact (List.mem_cons.1 (hsub x (List.mem_cons_of_mem c hx))).resolve_left
              (Nat.ne_of_gt (ha x hx))
          · exact (List.mem_cons.1 (hdown x (List.mem_cons_of_mem c hx) y (List.mem_cons_of_mem c hy)
              hyx)).resolve_left (Nat.ne_of_gt (hc y hy))

namespace FileStore

variable {s t : FileStore} {dir : Path} {h k : Nat} {b : FilledBlock}

/-- A file in the directory holds a block at this height. -/
def OnDisk (dir : Path) (d : Disk) (h : Nat) : Prop :=
  ∃ n b, BlockFile.found? d dir n = some b ∧ b.height = h

theorem onDisk_congr (hsame : ∀ {n}, BlockFile.height? n ≠ none →
    d'.node? (dir ++ [n]) = d.node? (dir ++ [n])) : OnDisk dir d' h ↔ OnDisk dir d h :=
  exists_congr fun n => by rw [BlockFile.found?_congr (n := n) hsame]

/-- What is found when the directory is opened is what is on the disk. -/
theorem Shows.onDisk_iff {blocks : Blocks} (hshows : Shows dir d blocks) :
    OnDisk dir d h ↔ blocks.at? h ≠ none := by
  constructor
  · rintro ⟨n, b, hfound, rfl⟩
    exact hshows.at?_ne_none hfound
  · intro hne
    obtain ⟨b, hb⟩ := Option.ne_none_iff_exists'.1 hne
    obtain ⟨hheight, n, hfound⟩ := hshows.found hb
    exact ⟨n, b, hfound, hheight⟩

/-- The block of a height is on the disk, now or when it was written there last. -/
theorem onDisk_written (hheight : b.height = k)
    (hfits : (FilledBlock.binary.write b).length < UInt64.size) (hrewrites : d.Rewrites (· = s.path k) d')
    (hnode : d'.node? (s.path k) = some (.file (FilledBlock.binary.write b))) :
    OnDisk s.dir d' h ↔ h = k ∨ OnDisk s.dir d h := by
  have hname : BlockFile.height? (BlockFile.name k) = some k := by
    rw [BlockFile.height?_name, if_pos (hheight ▸ b.header.height.toNat_lt)]
  have hself : BlockFile.found? d' s.dir (BlockFile.name k) = some b := by
    rw [BlockFile.found?_eq hname hnode, ← hheight, BlockFile.block?_write hfits]
  have hother : ∀ {n}, n ≠ BlockFile.name k → BlockFile.found? d' s.dir n = BlockFile.found? d s.dir n :=
    fun hn => BlockFile.found?_congr fun _ => hrewrites.elsewhere fun heq =>
      hn (List.cons.inj (List.append_cancel_left heq)).1
  constructor
  · rintro ⟨n, b', hfound, hb'⟩
    by_cases hn : n = BlockFile.name k
    · subst hn
      rw [hself] at hfound
      exact .inl (by rw [← hb', ← Option.some.inj hfound, hheight])
    · exact .inr ⟨n, b', hother hn ▸ hfound, hb'⟩
  · rintro (rfl | ⟨n, b', hfound, hb'⟩)
    · exact ⟨_, b, hself, hheight⟩
    · by_cases hn : n = BlockFile.name k
      -- what the file held before was a block at this very height
      · subst hn
        have hk := BlockFile.eq_of_height?_name (BlockFile.found?_eq_some hfound).1
        exact ⟨_, b, hself, by rw [hheight, hk, hb']⟩
      · exact ⟨n, b', (hother hn).trans hfound, hb'⟩

/-! ### Files that trail the blocks -/

/-- The heights on the disk are the first ones of those in memory, and all others are queued. -/
structure Trails (s : FileStore) (d : Disk) (queued : Nat → Prop) : Prop where
  readable : Readable s.dir d
  whole : d.Whole
  held : ∀ {h}, OnDisk s.dir d h → s.blocks.at? h ≠ none
  first : ∀ {h k}, OnDisk s.dir d h → k ≤ h → s.blocks.at? k ≠ none → OnDisk s.dir d k
  settled : ∀ {h}, s.blocks.at? h ≠ none → ¬queued h → OnDisk s.dir d h
  writable : ∀ {h}, queued h → ∃ b, s.blocks.at? h = some b ∧ b.height = h ∧
    (FilledBlock.binary.write b).length < UInt64.size

variable {queued : Nat → Prop}

theorem Trails.mono {queued' : Nat → Prop} (hs : s.Trails d queued) (h : ∀ k, queued' k ↔ queued k) :
    s.Trails d queued' := by
  obtain rfl : queued' = queued := funext fun k => propext (h k)
  exact hs

/-- What happens elsewhere does not reach the blocks. -/
theorem Trails.elsewhere (hs : s.Trails d queued) (hdir : d'.HasDirectory s.dir) (hwhole : d'.Whole)
    (hsame : ∀ {n}, BlockFile.height? n ≠ none →
      d'.node? (s.dir ++ [n]) = d.node? (s.dir ++ [n])) : s.Trails d' queued := by
  have hdisk : ∀ {h}, OnDisk s.dir d' h ↔ OnDisk s.dir d h := onDisk_congr hsame
  refine ⟨⟨hdir, fun hn => hsame hn ▸ hs.readable.legible hn⟩, hwhole, fun hh => hs.held (hdisk.1 hh),
    fun hh hle hk => hdisk.2 (hs.first (hdisk.1 hh) hle hk), fun hh hnot => hdisk.2 (hs.settled hh hnot),
    hs.writable⟩

/-- A block at or above everything on the disk is queued. -/
theorem Trails.add (hs : s.Trails d (· ∈ s.dirty)) (habove : ∀ h, OnDisk s.dir d h → h ≤ b.height)
    (hfits : (FilledBlock.binary.write b).length < UInt64.size) :
    (s.add b).Trails d (· ∈ (s.add b).dirty) := by
  have hmem : ∀ {h}, h ∈ (s.add b).dirty ↔ b.height = h ∨ h ∈ s.dirty := by
    intro h
    show h ∈ s.dirty.insert b.height ↔ _
    rw [Std.ExtTreeSet.mem_insert, Nat.compare_eq_eq]
  have hat : ∀ h, (s.add b).blocks.at? h = if h = b.height then some b else s.blocks.at? h :=
    s.blocks.at?_add b
  refine ⟨hs.readable, hs.whole, fun {h} hh => ?_, fun {h k} hh hle hk => ?_, fun {h} hh hnot => ?_,
    fun {h} hh => ?_⟩
  · rw [hat]
    split
    · exact Option.some_ne_none b
    · exact hs.held hh
  · rw [hat] at hk
    split at hk
    · rename_i heq
      rwa [Nat.le_antisymm hle (heq ▸ habove h hh)]
    · exact hs.first hh hle hk
  · rw [hmem, not_or] at hnot
    rw [hat, if_neg (Ne.symm hnot.1)] at hh
    exact hs.settled hh hnot.2
  · rw [hat]
    split
    · rename_i heq
      exact ⟨b, rfl, heq.symm, hfits⟩
    · rename_i hne
      exact hs.writable ((hmem.1 hh).resolve_left (Ne.symm hne))

theorem Trails.foldl_add {blocks : List FilledBlock} (hs : s.Trails d (· ∈ s.dirty))
    (habove : ∀ b ∈ blocks, ∀ h, OnDisk s.dir d h → h ≤ b.height)
    (hfits : ∀ b ∈ blocks, (FilledBlock.binary.write b).length < UInt64.size) :
    (blocks.foldl FileStore.add s).Trails d (· ∈ (blocks.foldl FileStore.add s).dirty) := by
  induction blocks generalizing s with
  | nil => exact hs
  | cons b blocks ih =>
      exact ih (hs.add (habove b List.mem_cons_self) (hfits b List.mem_cons_self))
        (fun b' hb' => habove b' (List.mem_cons_of_mem b hb'))
        fun b' hb' => hfits b' (List.mem_cons_of_mem b hb')

/-! ### Writing -/

/-- The first of the queued heights is queued no more once its block is on the disk. -/
theorem Trails.settle {ks : List Nat} (hs : s.Trails d (· ∈ k :: ks)) (hleast : ∀ j ∈ ks, k < j)
    (hwhole : d'.Whole) (hrewrites : d.Rewrites (· = s.path k) d')
    (hdisk : ∀ {h}, OnDisk s.dir d' h ↔ h = k ∨ OnDisk s.dir d h) : s.Trails d' (· ∈ ks) := by
  refine ⟨hs.readable.rewrites hrewrites, hwhole, fun hh => ?_, fun {h j} hh hle hj => hdisk.2 ?_,
    fun {h} hh hnot => hdisk.2 ?_, fun hh => hs.writable (List.mem_cons_of_mem k hh)⟩
  · rcases hdisk.1 hh with rfl | hh
    · obtain ⟨b, hb, -⟩ := hs.writable List.mem_cons_self
      exact hb ▸ Option.some_ne_none b
    · exact hs.held hh
  · rcases hdisk.1 hh with rfl | hh
    -- below the height that is written now, everything was written before
    · refine (Nat.eq_or_lt_of_le hle).imp id fun hlt => hs.settled hj fun hmem => ?_
      rcases List.mem_cons.1 hmem with rfl | hmem
      · exact Nat.lt_irrefl _ hlt
      · exact Nat.lt_asymm hlt (hleast j hmem)
    · exact .inr (hs.first hh hle hj)
  · by_cases hk : h = k
    · exact .inl hk
    · exact .inr (hs.settled hh fun hmem => (List.mem_cons.1 hmem).elim hk hnot)

/-- The first of the queued heights is written, or nothing changes. -/
theorem Trails.writeBlock {ks : List Nat} (hs : s.Trails d (· ∈ k :: ks)) (hleast : ∀ j ∈ ks, k < j)
    {result : Except SyncError Unit} (hrun : s.writeBlock k d = (result, d')) :
    s.Trails d' (· ∈ k :: ks) ∧ (result = .ok () → s.Trails d' (· ∈ ks)) := by
  obtain ⟨b, hb, hheight, hfits⟩ := hs.writable List.mem_cons_self
  have hrewrites : d.Rewrites (· = s.path k) d' := by
    have hall := s.rewrites_writeBlock k d
    rwa [hrun] at hall
  obtain ⟨hwhole, hsame⟩ : d'.Whole ∧ (result = .ok () ∨ d'.nodes = d.nodes) := by
    have hwrite := hs.whole.write (s.path k) (FilledBlock.binary.write b)
    rw [FileStore.writeBlock, show s.blocks.byHeight[k]? = some b from hb] at hrun
    dsimp only at hrun
    split at hrun <;> rename_i heq <;> rw [heq] at hwrite <;> cases hrun
    · exact ⟨hwrite.1, .inl rfl⟩
    · exact ⟨hwrite.1, .inr (hwrite.2.resolve_left fun hok => by cases hok)⟩
  cases result with
  | error e =>
      have hnode : ∀ {q}, d'.node? q = d.node? q :=
        Disk.node?_congr (hsame.resolve_left fun hok => by cases hok)
      exact ⟨hs.elsewhere (hrewrites.hasDirectory hs.readable.directory) hwhole fun _ => hnode,
        fun hok => by cases hok⟩
  | ok _ =>
      have hdone : s.Trails d' (· ∈ ks) := hs.settle hleast hwhole hrewrites
        (onDisk_written hheight hfits hrewrites (node?_of_writeBlock hb hrun))
      exact ⟨{ hdone with
        settled := fun hh hnot => hdone.settled hh (mt (List.mem_cons_of_mem k) hnot)
        writable := hs.writable }, fun _ => hdone⟩

/-- **Queued heights are written in ascending order**, up to the first failure or to any other point. -/
theorem Trails.writeBlocks {front back rest : List Nat} {result : Except SyncError Unit}
    (hs : s.Trails d (· ∈ front ++ back)) (hsorted : (front ++ back).Pairwise (· < ·))
    (hrun : s.writeBlocks d front = (result, rest, d')) : s.Trails d' (· ∈ rest ++ back) := by
  induction front generalizing d with
  | nil =>
      cases hrun
      exact hs
  | cons k ks ih =>
      obtain ⟨hleast, hrest⟩ := List.pairwise_cons.1 hsorted
      rw [FileStore.writeBlocks] at hrun
      split at hrun <;> rename_i hwrite
      · exact ih ((hs.writeBlock hleast hwrite).2 rfl) hrest hrun
      · cases hrun
        exact (hs.writeBlock hleast hwrite).1

/-- The queued heights in ascending order. -/
theorem pairwise_dirty (s : FileStore) : s.dirty.toList.Pairwise (· < ·) :=
  s.dirty.ordered_toList.imp Nat.compare_eq_lt.1

/-- A flush can stop after any number of writes; queued is then what these have not written, and what
comes after them. -/
theorem Trails.stopped (hs : s.Trails d (· ∈ s.dirty)) (n : Nat) :
    let stopped := s.writeBlocks d (s.dirty.toList.take n)
    s.Trails stopped.2.2 (· ∈ stopped.2.1 ++ s.dirty.toList.drop n) := by
  have hsplit : s.Trails d (· ∈ s.dirty.toList.take n ++ s.dirty.toList.drop n) :=
    hs.mono fun k => by rw [List.take_append_drop, Std.ExtTreeSet.mem_toList]
  exact hsplit.writeBlocks (by rw [List.take_append_drop]; exact s.pairwise_dirty) rfl

/-- **A flush keeps the order**, and queued what it does not get to. -/
theorem Trails.flush {result : Except SyncError Unit} (hs : s.Trails d (· ∈ s.dirty))
    (hrun : s.flush d = (result, t, d')) : t.Trails d' (· ∈ t.dirty) := by
  rcases hwrites : s.writeBlocks d s.dirty.toList with ⟨written, rest, d₁⟩
  have hall : s.Trails d (· ∈ s.dirty.toList ++ []) :=
    hs.mono fun k => by rw [List.append_nil, Std.ExtTreeSet.mem_toList]
  have hnext := hall.writeBlocks (by rw [List.append_nil]; exact s.pairwise_dirty) hwrites
  rw [FileStore.flush, hwrites] at hrun
  cases hrun
  have hmem : ∀ k, k ∈ Std.ExtTreeSet.ofList rest ↔ k ∈ rest ++ [] := by simp
  refine Trails.mono ?_ hmem
  exact ⟨hnext.readable, hnext.whole, hnext.held, hnext.first, hnext.settled, hnext.writable⟩

/-! ### Every moment -/

/-- Nothing is queued, and the directory would be opened with blocks at the same heights. -/
structure Flushed (s : FileStore) (d : Disk) : Prop where
  dirty : s.dirty = ∅
  opened : ∃ blocks, openAt s.dir d = (.ok ⟨s.dir, blocks, ∅⟩, d) ∧
    ∀ h, blocks.at? h ≠ none ↔ s.blocks.at? h ≠ none

theorem Flushed.trails (hs : s.Flushed d) (hwhole : d.Whole) : s.Trails d (· ∈ s.dirty) := by
  obtain ⟨hdirty, blocks, hopen, hsame⟩ := hs
  obtain ⟨hreadable, -, -, hshows⟩ := readable_of_openAt hopen
  have hdisk : ∀ {h}, OnDisk s.dir d h ↔ s.blocks.at? h ≠ none := hshows.onDisk_iff.trans (hsame _)
  exact ⟨hreadable, hwhole, hdisk.1, fun _ _ => hdisk.2, fun hh _ => hdisk.2 hh,
    fun hh => absurd (hdirty ▸ hh) (by simp)⟩

/-- What becomes of a store and the disk.  Windows run on the store from its last block or above, to any
point and with any answers; it is flushed, and it is opened again after a stop; other files change. -/
inductive Course (s₀ : FileStore) (d₀ : Disk) : FileStore → Disk → Prop where
  | start : Course s₀ d₀ s₀ d₀
  | window {s t : FileStore} {d : Disk} {w : Window} {config : SyncConfig} {first : Option String}
      {lo hi : Nat} {replies : Replies} {r : Run} (hcourse : Course s₀ d₀ s d) (hw : w.store = .file s)
      (hlo : ∀ h, s.blocks.at? h ≠ none → h ≤ lo)
      (hsteps : Run.Steps (w.plan config) replies (Run.start w config first lo hi) r)
      (hfits : ∀ b ∈ r.stored, (FilledBlock.binary.write b).length < UInt64.size)
      (hr : r.scan.store = .file t) : Course s₀ d₀ t d
  | flush {s t : FileStore} {d d' : Disk} {result : Except SyncError Unit} (hcourse : Course s₀ d₀ s d)
      (hflush : s.flush d = (result, t, d')) : Course s₀ d₀ t d'
  | reopen {s t : FileStore} {d d' : Disk} {n : Nat} (hcourse : Course s₀ d₀ s d)
      (hopen : openAt s.dir (s.writeBlocks d (s.dirty.toList.take n)).2.2 = (.ok t, d')) :
      Course s₀ d₀ t d'
  | elsewhere {s : FileStore} {d d' : Disk} (hcourse : Course s₀ d₀ s d)
      (hdir : d.HasDirectory s.dir → d'.HasDirectory s.dir) (hwhole : d.Whole → d'.Whole)
      (hsame : ∀ {n}, BlockFile.height? n ≠ none → d'.node? (s.dir ++ [n]) = d.node? (s.dir ++ [n])) :
      Course s₀ d₀ s d'

theorem Trails.openAt {queued : Nat → Prop} (hs : s.Trails d queued)
    (hopen : openAt s.dir d = (.ok t, d')) : t.Trails d' (· ∈ t.dirty) := by
  obtain ⟨blocks, hopened, hshows⟩ := hs.readable.openAt
  cases hopened.symm.trans hopen
  exact ⟨hs.readable, hs.whole, hshows.onDisk_iff.1, fun _ _ => hshows.onDisk_iff.2,
    fun hh _ => hshows.onDisk_iff.2 hh, fun hh => absurd hh (by simp)⟩

/-- **At every moment the files trail the blocks.** -/
theorem Course.trails {s₀ : FileStore} {d₀ : Disk} (hflushed : s₀.Flushed d₀) (hwhole : d₀.Whole)
    (h : Course s₀ d₀ s d) : s.Trails d (· ∈ s.dirty) := by
  induction h with
  | start => exact hflushed.trails hwhole
  | @window s t d w config first lo hi replies r _ hw hlo hsteps hfits hr ih =>
      obtain ⟨hsound, horder⟩ := Run.inOrder_of_steps hsteps
      have hstore := (Run.records_of_steps hsteps).store
      rw [hw, BlockStore.foldl_add_file, hr] at hstore
      obtain rfl := BlockStore.file.inj hstore
      refine ih.foldl_add (fun b hb h hh => ?_) hfits
      exact Nat.le_trans (hlo h (ih.held hh)) (hsound.le_of_isComplete (horder.isComplete b hb).1).1
  | flush _ hflush ih => exact ih.flush hflush
  | @reopen s t d d' n _ hopen ih =>
      exact (ih.stopped n).openAt hopen
  | elsewhere _ hdir hwhole hsame ih =>
      exact ih.elsewhere (hdir ih.readable.directory) (hwhole ih.whole) hsame

/-- **A synchronization is a part of the course**, whatever it comes to. -/
theorem Course.synchronize {σ : Type} {s₀ : FileStore} {d₀ : Disk} {explorer : Explorer σ} {w w' : Window}
    {config : SyncConfig} {first : Option String} {lo hi : Nat} {x x' : σ}
    {result : Except Stop WindowStats} (hcourse : Course s₀ d₀ s w.disk) (hw : w.store = .file s)
    (hlo : ∀ h, s.blocks.at? h ≠ none → h ≤ lo)
    (hrun : w.synchronize explorer config first lo hi x = (result, w', x'))
    (hfits : ∀ {h b}, w'.store.blocks.at? h = some b →
      (FilledBlock.binary.write b).length < UInt64.size) :
    ∃ t, w'.store = .file t ∧ Course s₀ d₀ t w'.disk := by
  rcases Nat.lt_or_ge hi lo with hlt | hle
  · rw [w.synchronize_of_lt explorer config first hlt] at hrun
    cases hrun
    exact ⟨s, hw, hcourse⟩
  have hkeeps : explorer.Keeps fun _ _ _ => True := fun _ => trivial
  obtain ⟨r, hsteps, -, hleaves, -⟩ := Run.steps_of_synchronize hkeeps hle hrun
  have hstore := (Run.records_of_steps hsteps).store
  rw [hw, BlockStore.foldl_add_file] at hstore
  have hwindow := hcourse.window hw hlo hsteps
    (fun b hb => hfits (Run.at?_of_mem_stored hsteps hleaves hb)) hstore
  by_cases hreturns : result = .error .overflow
  · -- an overflow comes before the flush
    have hsaved := hleaves.saved
    rw [hreturns, hstore] at hsaved
    obtain ⟨hstore', hdisk⟩ := Prod.mk.inj hsaved
    exact ⟨_, hstore', hdisk ▸ hwindow⟩
  rcases hflushed : (r.stored.foldl FileStore.add s).flush w.disk with ⟨res, t, d₁⟩
  have hflush : r.scan.store.flush w.disk = (res, .file t, d₁) := by
    rw [hstore, BlockStore.flush, hflushed]
  have hsaved := hleaves.saved
  rw [Window.save_of_ne hreturns, hflush] at hsaved
  obtain ⟨hstore', hdisk⟩ := Prod.mk.inj hsaved
  refine ⟨t, hstore', ?_⟩
  rw [hdisk]
  exact hwindow.flush hflushed

/-- **A store is resumed without gaps.**  Begin with a store whose blocks are all flushed, on a disk where
a write that fails leaves the file as it was, and let anything happen.  Stop at any moment, also in the
middle of a flush, and open the directory again: the heights found there are the first ones of those in
memory, and among them is every height that was not queued any more.  So nothing that was finalized below
the last block found is missing, and nothing that was written is. -/
theorem resumes_without_gap {s₀ : FileStore} {d₀ : Disk} (hflushed : s₀.Flushed d₀) (hwhole : d₀.Whole)
    (h : Course s₀ d₀ s d) (n : Nat) :
    let stopped := s.writeBlocks d (s.dirty.toList.take n)
    let queued := stopped.2.1 ++ s.dirty.toList.drop n
    let crashed := stopped.2.2
    ∃ blocks, openAt s.dir crashed = (.ok ⟨s.dir, blocks, ∅⟩, crashed) ∧
      blocks.byHeight.keys <+: s.blocks.byHeight.keys ∧
      (∀ {last}, blocks.last? = some last → ∀ h ≤ last.height.toNat,
        s.blocks.at? h ≠ none → blocks.at? h ≠ none) ∧
      ∀ h, s.blocks.at? h ≠ none → h ∉ queued → blocks.at? h ≠ none := by
  intro stopped queued crashed
  have hs := (h.trails hflushed hwhole).stopped n
  obtain ⟨blocks, hopened, hshows⟩ := hs.readable.openAt
  have hdown : ∀ {h k}, blocks.at? h ≠ none → k ≤ h → s.blocks.at? k ≠ none → blocks.at? k ≠ none :=
    fun hh hle hk => hshows.onDisk_iff.1 (hs.first (hshows.onDisk_iff.2 hh) hle hk)
  refine ⟨blocks, hopened, ?_, fun {last} hlast h hle hh => ?_,
    fun h hh hnot => hshows.onDisk_iff.1 (hs.settled hh hnot)⟩
  · have hmem : ∀ {b : Blocks} {h}, h ∈ b.byHeight.keys ↔ b.at? h ≠ none := fun {b h} => by
      rw [Std.ExtTreeMap.mem_keys, Std.ExtTreeMap.mem_iff_isSome_getElem?, Option.isSome_iff_ne_none]
      rfl
    refine front_of_ascending (blocks.byHeight.ordered_keys.imp Nat.compare_eq_lt.1)
      (s.blocks.byHeight.ordered_keys.imp Nat.compare_eq_lt.1) (fun h hh => ?_) fun h hh k hk hle => ?_
    · exact hmem.2 (hs.held (hshows.onDisk_iff.2 (hmem.1 hh)))
    · exact hmem.2 (hdown (hmem.1 hh) hle (hmem.1 hk))
  · rcases blocks.last?_cases with ⟨hnone, -⟩ | ⟨k, b, hsome, hb, -⟩
    · cases hnone.symm.trans hlast
    · cases hsome.symm.trans hlast
      exact hdown (hb ▸ Option.some_ne_none b) ((hshows.found hb).1 ▸ hle) hh

/-- Two blocks are found, and the second one is not written: what is opened is a front of the two, with the
first one. -/
theorem resumes_without_gap_secondRefused :
    let config : SyncConfig := ⟨0, 1, 1, 2, "g"⟩
    let w : Window := { Window.twoAddresses with
      store := .file ⟨["d"], .empty, ∅⟩
      disk := ⟨[(["d"], .directory)], [.done, .refused]⟩ }
    ∃ e w' t blocks, w.synchronize (Window.threeBlocks.explorer 2) config (some "g") 0 2 () =
        (.error e, w', ()) ∧ w'.store = .file t ∧ t.blocks.byHeight.keys = [1, 2] ∧
      w'.disk.node? ["d", BlockFile.name 1] ≠ none ∧ w'.disk.node? ["d", BlockFile.name 2] = none ∧
      FileStore.openAt t.dir w'.disk = (.ok ⟨t.dir, blocks, ∅⟩, w'.disk) ∧
      blocks.byHeight.keys <+: [1, 2] ∧ blocks.at? 1 ≠ none := by
  intro config w
  have hopen : FileStore.openAt ["d"] w.disk = (.ok ⟨["d"], .empty, ∅⟩, w.disk) :=
    openAt_oneDirectory ..
  have hflushed : (⟨["d"], .empty, ∅⟩ : FileStore).Flushed w.disk := ⟨rfl, .empty, hopen, fun _ => Iff.rfl⟩
  have hwhole : w.disk.Whole := fun kept => by simp [w]
  have hok : (w.synchronize (Window.threeBlocks.explorer 2) config (some "g") 0 2 ()).1.isOk = false := by
    decide +kernel
  have hkeys : (w.synchronize (Window.threeBlocks.explorer 2) config (some "g") 0 2
      ()).2.1.store.blocks.byHeight.keys = [1, 2] := by decide +kernel
  have hsmall : ((w.synchronize (Window.threeBlocks.explorer 2) config (some "g") 0 2
      ()).2.1.store.blocks.toList.all fun b => (FilledBlock.binary.write b).length < 1000) = true := by
    decide +kernel
  have hfiles : ([1, 2].map fun h => ((w.synchronize (Window.threeBlocks.explorer 2) config (some "g") 0 2
      ()).2.1.disk.node? ["d", BlockFile.name h]).isSome) = [true, false] := by decide +kernel
  have hqueued : decide ((w.synchronize (Window.threeBlocks.explorer 2) config (some "g") 0 2
      ()).2.1.store.Queued 1) = false := by decide +kernel
  generalize hrun : w.synchronize (Window.threeBlocks.explorer 2) config (some "g") 0 2 () = run
    at hok hkeys hsmall hfiles hqueued
  obtain ⟨e | stats, w', _⟩ := run
  case ok => cases hok
  have hfits : ∀ {h b}, w'.store.blocks.at? h = some b →
      (FilledBlock.binary.write b).length < UInt64.size := fun {h b} hb => by
    have hlt := of_decide_eq_true (List.all_eq_true.1 hsmall b (Blocks.mem_toList.2 ⟨h, hb⟩))
    exact Nat.lt_trans hlt (by decide)
  obtain ⟨t, ht, hcourse⟩ := Course.start.synchronize (s := ⟨["d"], .empty, ∅⟩) rfl
    (fun h hh => absurd (Blocks.at?_empty h) hh) hrun hfits
  rw [ht] at hkeys hqueued
  have hkeys : t.blocks.byHeight.keys = [1, 2] := hkeys
  obtain ⟨hfirst, hsecond, -⟩ := List.cons_eq_cons.1 hfiles |>.imp_right List.cons_eq_cons.1
  obtain ⟨blocks, hopened, hfront, -, hfound⟩ := resumes_without_gap hflushed hwhole hcourse 0
  refine ⟨e, w', t, blocks, rfl, ht, hkeys, Option.isSome_iff_ne_none.1 hfirst,
    Option.isNone_iff_eq_none.1 (Option.isSome_eq_false_iff.1 hsecond), hopened, hkeys ▸ hfront,
    hfound 1 ?_ ?_⟩
  · have hmem : 1 ∈ t.blocks.byHeight.keys := hkeys ▸ List.mem_cons_self
    rw [Std.ExtTreeMap.mem_keys, Std.ExtTreeMap.mem_iff_isSome_getElem?] at hmem
    exact Option.isSome_iff_ne_none.1 hmem
  · -- nothing is queued but what the flush has left
    have hwritten : 1 ∉ t.dirty := of_decide_eq_false hqueued
    rwa [← Std.ExtTreeSet.mem_toList] at hwritten

end FileStore
end WatchWallet
