import WatchWallet.Proofs.Store.CheckpointStore

/-!
# Store — Rewriting

What the changes of a store leave alone, whatever becomes of them.  A change that fails may leave a file
torn, but it reaches no other file, and directories stay where they are (`Disk.Rewrites`).  So whatever
happens to blocks, the last checkpoint stays (`CheckpointStore.Lies.rewrites`); and when a checkpoint is
saved, it is the last one (`CheckpointStore.Lies.save`).
-/

namespace WatchWallet

namespace Disk

variable {d d' d'' : Disk} {p q : Path} {P : Path → Prop}

/-- Only some of the paths have changed, and directories are where they were. -/
structure Rewrites (P : Path → Prop) (d d' : Disk) : Prop where
  elsewhere : ∀ {q}, ¬P q → d'.node? q = d.node? q
  directory_iff : ∀ {q}, d'.node? q = some .directory ↔ d.node? q = some .directory

namespace Rewrites

theorem refl (P : Path → Prop) (d : Disk) : d.Rewrites P d :=
  ⟨fun _ => rfl, Iff.rfl⟩

theorem trans (h : d.Rewrites P d') (h' : d'.Rewrites P d'') : d.Rewrites P d'' :=
  ⟨fun hq => (h'.elsewhere hq).trans (h.elsewhere hq), h'.directory_iff.trans h.directory_iff⟩

theorem mono {Q : Path → Prop} (h : d.Rewrites P d') (hPQ : ∀ {q}, P q → Q q) : d.Rewrites Q d' :=
  ⟨fun hq => h.elsewhere fun hp => hq (hPQ hp), h.directory_iff⟩

theorem hasDirectory (h : d.Rewrites P d') (hp : d.HasDirectory p) : d'.HasDirectory p :=
  fun q hq => h.directory_iff.2 (hp q hq)

end Rewrites

/-- Some of the paths, perhaps, have nothing any more, and no other one has changed. -/
structure Prunes (P : Path → Prop) (d d' : Disk) : Prop extends d.Rewrites P d' where
  same_or_gone : ∀ q, d'.node? q = d.node? q ∨ d'.node? q = none

namespace Prunes

theorem refl (P : Path → Prop) (d : Disk) : d.Prunes P d :=
  ⟨.refl P d, fun _ => .inl rfl⟩

theorem trans (h : d.Prunes P d') (h' : d'.Prunes P d'') : d.Prunes P d'' := by
  refine ⟨h.toRewrites.trans h'.toRewrites, fun q => ?_⟩
  rcases h'.same_or_gone q with hsame | hgone
  · rw [hsame]
    exact h.same_or_gone q
  · exact .inr hgone

theorem mono {Q : Path → Prop} (h : d.Prunes P d') (hPQ : ∀ {q}, P q → Q q) : d.Prunes Q d' :=
  ⟨h.toRewrites.mono hPQ, h.same_or_gone⟩

/-- What is there is as it was. -/
theorem node?_eq (h : d.Prunes P d') (hq : d'.node? q ≠ none) : d'.node? q = d.node? q :=
  (h.same_or_gone q).resolve_right hq

end Prunes

/-! ### Single changes -/

theorem node?_congr (h : d'.nodes = d.nodes) : d'.node? q = d.node? q := by
  rw [node?, node?, h]

theorem rewrites_of_nodes_eq (h : d'.nodes = d.nodes) : d.Rewrites P d' :=
  ⟨fun _ => node?_congr h, fun {q} => by rw [node?_congr h]⟩

/-- What becomes of a write: it fails and changes nothing, or something is put in the place of a file —
all that was to be written, if the write succeeds. -/
theorem write_cases {content : Bytes} {result : Except DiskError Unit}
    (h : d.write p content = (result, d')) :
    (∃ e, result = .error e) ∧ d'.nodes = d.nodes ∨
      p ≠ [] ∧ d.node? p ≠ some .directory ∧
        ∃ kept, d'.nodes = (d.put p (.file kept)).nodes ∧ (result = .ok () → kept = content) := by
  unfold write at h
  split at h
  · cases h
    exact .inl ⟨⟨_, rfl⟩, rfl⟩
  · cases h
    exact .inl ⟨⟨_, rfl⟩, rfl⟩
  · rename_i hnot
    have hfile : d.node? p ≠ some .directory := fun h => hnot h
    have hne : p ≠ [] := by
      rintro rfl
      exact hfile (node?_nil d)
    -- the disk takes the change, refuses it, or tears it
    unfold nextOutcome at h
    split at h <;> rename_i heq <;> split at heq <;> cases heq <;> cases h
    · exact .inr ⟨hne, hfile, _, rfl, fun _ => rfl⟩
    · exact .inr ⟨hne, hfile, _, rfl, fun _ => rfl⟩
    · exact .inl ⟨⟨_, rfl⟩, rfl⟩
    · exact .inr ⟨hne, hfile, _, rfl, nofun⟩

/-- What is not found when it is read is not there. -/
theorem node?_of_readText (h : d.readText p = .error .notFound) : d.node? p = none := by
  unfold readText read at h
  cases hnode : d.node? p with
  | none => rfl
  | some node =>
      rw [hnode] at h
      cases node with
      | directory => cases h
      | file content =>
          dsimp only [bind, Except.bind] at h
          split at h <;> cases h

/-- Where something was to be written, nothing has changed, or a file is now. -/
theorem node?_write {content : Bytes} {result : Except DiskError Unit}
    (h : d.write p content = (result, d')) :
    (∃ e, result = .error e) ∧ d'.node? p = d.node? p ∨
      ∃ kept, d'.node? p = some (.file kept) ∧ (result = .ok () → kept = content) := by
  rcases write_cases h with ⟨hfail, hsame⟩ | ⟨hne, -, kept, hput, hkept⟩
  · exact .inl ⟨hfail, node?_congr hsame⟩
  · exact .inr ⟨kept, by rw [node?_congr hput, node?_put hne, if_pos rfl], hkept⟩

theorem rewrites_put {content : Bytes} (hp : p ≠ []) (hfile : d.node? p ≠ some .directory)
    (h : d'.nodes = (d.put p (.file content)).nodes) : d.Rewrites (· = p) d' := by
  refine ⟨fun {q} hq => ?_, fun {q} => ?_⟩
  · rw [node?_congr h, node?_put hp, if_neg hq]
  · rw [node?_congr h, node?_put hp]
    split
    · rename_i heq
      subst heq
      exact ⟨nofun, fun h => absurd h hfile⟩
    · exact Iff.rfl

theorem rewrites_write (d : Disk) (p : Path) (content : Bytes) :
    d.Rewrites (· = p) (d.write p content).2 := by
  have hwrite : d.write p content = ((d.write p content).1, (d.write p content).2) := rfl
  rcases write_cases hwrite with ⟨-, hsame⟩ | ⟨hp, hfile, kept, hput, -⟩
  · exact rewrites_of_nodes_eq hsame
  · exact rewrites_put hp hfile hput

theorem node?_drop (hp : p ≠ []) : (d.drop p).node? q = if q = p then none else d.node? q := by
  by_cases hq : q = p
  · subst hq
    rw [if_pos rfl, node?_of_ne hp, drop]
    refine List.lookup_eq_none_iff.2 fun x hx => ?_
    have hne : (x.1 != q) = true := (List.mem_filter.1 hx).2
    exact bne_iff_ne.2 (bne_iff_ne.1 hne).symm
  · rw [if_neg hq]
    by_cases hnil : q = []
    · rw [hnil, node?_nil, node?_nil]
    · rw [node?_of_ne hnil, node?_of_ne hnil]
      exact lookup_filter hq

/-- What becomes of a removal: the file is gone, or nothing changes, because nothing is there or for
another reason. -/
theorem removeFile_cases (d : Disk) (p : Path) :
    (d.removeFile p).1 = .ok () ∧ (∃ content, d.node? p = some (.file content)) ∧
        (d.removeFile p).2.nodes = (d.drop p).nodes ∨
      (d.removeFile p).2.nodes = d.nodes ∧ ∃ e, (d.removeFile p).1 = .error e ∧
        (e = .notFound → d.node? p = none) ∧
        (e ≠ .notFound → d.node? p.dropLast = some .directory → d.node? p ≠ none) := by
  unfold removeFile
  split
  · rename_i hnone
    refine .inr ⟨rfl, _, rfl, fun _ => hnone, fun hne hdir => absurd ?_ hne⟩
    rw [parentError?, hdir]
    rfl
  · rename_i hdir
    refine .inr ⟨rfl, _, rfl, ?_, fun _ _ => hdir ▸ Option.some_ne_none _⟩
    rintro ⟨⟩
  · rename_i content hfile
    have hkept : ∀ {o d₁}, d.nextOutcome = (o, d₁) → d₁.nodes = d.nodes := by
      intro o d₁ h
      unfold nextOutcome at h
      split at h <;> cases h <;> rfl
    split
    · rename_i d₁ hdone
      refine .inl ⟨rfl, ⟨content, hfile⟩, ?_⟩
      rw [drop, drop, hkept hdone]
    · rename_i d₁ hrest
      refine .inr ⟨hkept hrest, _, rfl, ?_, fun _ _ => hfile ▸ Option.some_ne_none _⟩
      rintro ⟨⟩

theorem prunes_of_nodes_eq (h : d'.nodes = d.nodes) : d.Prunes P d' :=
  ⟨rewrites_of_nodes_eq h, fun _ => .inl (node?_congr h)⟩

theorem prunes_removeFile (d : Disk) (p : Path) : d.Prunes (· = p) (d.removeFile p).2 := by
  rcases d.removeFile_cases p with ⟨-, ⟨content, hfile⟩, hdropped⟩ | ⟨hsame, -⟩
  · have hp : p ≠ [] := by
      rintro rfl
      cases (node?_nil d).symm.trans hfile
    have hnode : ∀ q, (d.removeFile p).2.node? q = if q = p then none else d.node? q := fun q => by
      rw [node?_congr hdropped, node?_drop hp]
    refine ⟨⟨fun {q} hq => by rw [hnode, if_neg hq], fun {q} => ?_⟩, fun q => ?_⟩ <;> rw [hnode]
    · split
      · rename_i heq
        subst heq
        exact ⟨nofun, fun h => by rw [hfile] at h; cases h⟩
      · exact Iff.rfl
    · split
      · exact .inr rfl
      · exact .inl rfl
  · exact prunes_of_nodes_eq hsame

/-- Where no way leads to a directory, nothing changes when it is made. -/
theorem node?_createDirectories (h : d.createDirectories p = .ok d') (hq : q ∉ ancestors p) :
    d'.node? q = d.node? q := by
  unfold createDirectories at h
  generalize ancestors p = paths at h hq
  induction paths generalizing d with
  | nil =>
      cases h
      rfl
  | cons r rs ih =>
      obtain ⟨hne, hrest⟩ := List.ne_and_not_mem_of_not_mem_cons hq
      rw [List.foldlM_cons] at h
      obtain ⟨d₁, hr, hrs⟩ := Except.bind_eq_ok.1 h
      rw [ih hrs hrest]
      rcases createDirectory_cases hr with ⟨-, rfl⟩ | ⟨hnil, rfl⟩
      · rfl
      · rw [node?_put hnil, if_neg hne]

/-- A directory stays when another one is made. -/
theorem HasDirectory.createDirectories (h : d.HasDirectory p) (hmade : d.createDirectories q = .ok d') :
    d'.HasDirectory p := by
  intro r hr
  by_cases hq : r ∈ ancestors q
  · exact (createDirectories_ok hmade).2.1 r hq
  · rw [node?_createDirectories hmade hq]
    exact h r hr

end Disk

/-! ### The files of a store -/

/-- The directory of the files of a store. -/
def BlockStore.dir? : BlockStore → Option Path
  | memory _ => none
  | file store => some store.dir

/-- The path is that of a block file in the directory. -/
def BlockFile.At (dir? : Option Path) (q : Path) : Prop :=
  ∃ dir ∈ dir?, ∃ h, q = dir ++ [BlockFile.name h]

namespace FileStore

variable (s : FileStore)

theorem at_path (h : Nat) : BlockFile.At (some s.dir) (s.path h) :=
  ⟨s.dir, rfl, h, rfl⟩

theorem rewrites_writeBlock (h : Nat) (d : Disk) :
    d.Rewrites (· = s.path h) (s.writeBlock h d).2 := by
  unfold writeBlock
  split
  · exact .refl _ d
  · rename_i block _
    have hwrite := d.rewrites_write (s.path h) (FilledBlock.binary.write block)
    split <;> rename_i heq <;> rw [heq] at hwrite <;> exact hwrite

theorem rewrites_writeBlocks (hs : List Nat) (d : Disk) :
    d.Rewrites (fun q => ∃ h ∈ hs, q = s.path h) (s.writeBlocks d hs).2.2 := by
  induction hs generalizing d with
  | nil => exact .refl _ d
  | cons h hs ih =>
      have hfirst := (s.rewrites_writeBlock h d).mono (Q := fun q => ∃ k ∈ h :: hs, q = s.path k)
        fun hq => ⟨h, List.mem_cons_self, hq⟩
      rw [writeBlocks]
      split <;> rename_i heq <;> rw [heq] at hfirst
      · refine hfirst.trans ((ih _).mono ?_)
        rintro q ⟨k, hk, hq⟩
        exact ⟨k, List.mem_cons_of_mem h hk, hq⟩
      · exact hfirst

theorem prunes_removeFiles (hs : List Nat) (d : Disk) :
    d.Prunes (fun q => ∃ h ∈ hs, q = s.path h) (s.removeFiles d hs).2 := by
  induction hs generalizing d with
  | nil => exact .refl _ d
  | cons h hs ih =>
      have hfirst := (d.prunes_removeFile (s.path h)).mono
        (Q := fun q => ∃ k ∈ h :: hs, q = s.path k) fun hq => ⟨h, List.mem_cons_self, hq⟩
      have hrest : ∀ d : Disk, d.Prunes (fun q => ∃ k ∈ h :: hs, q = s.path k)
          (s.removeFiles d hs).2 :=
        fun d => (ih d).mono fun ⟨k, hk, hq⟩ => ⟨k, List.mem_cons_of_mem h hk, hq⟩
      rw [removeFiles]
      split <;> rename_i heq <;> rw [heq] at hfirst
      · exact hfirst.trans (hrest _)
      · exact hfirst.trans (hrest _)
      · exact hfirst

end FileStore

namespace BlockStore

variable (s : BlockStore)

@[simp] theorem dir?_add (block : FilledBlock) : (s.add block).dir? = s.dir? := by
  cases s <;> rfl

@[simp] theorem dir?_foldl_add (blocks : List FilledBlock) :
    (blocks.foldl add s).dir? = s.dir? := by
  induction blocks generalizing s with
  | nil => rfl
  | cons block blocks ih => rw [List.foldl_cons, ih, dir?_add]

@[simp] theorem dir?_flush (d : Disk) : (s.flush d).2.1.dir? = s.dir? := by
  cases s <;> rfl

@[simp] theorem dir?_removeFrom (h : Nat) (d : Disk) : (s.removeFrom h d).2.1.dir? = s.dir? := by
  cases s <;> rfl

/-- **A flush changes the files of the store and nothing else**, also when it fails. -/
theorem rewrites_flush (d : Disk) : d.Rewrites (BlockFile.At s.dir?) (s.flush d).2.2 := by
  cases s with
  | memory blocks => exact .refl _ d
  | file store =>
      exact (store.rewrites_writeBlocks _ d).mono fun ⟨h, _, hq⟩ => hq ▸ store.at_path h

/-- A removal changes the files of the store and nothing else, also when it fails. -/
theorem rewrites_removeFrom (h : Nat) (d : Disk) :
    d.Rewrites (BlockFile.At s.dir?) (s.removeFrom h d).2.2 := by
  cases s with
  | memory blocks => exact .refl _ d
  | file store =>
      exact (store.prunes_removeFiles _ d).toRewrites.mono fun ⟨h, _, hq⟩ => hq ▸ store.at_path h

end BlockStore

/-! ### The checkpoint -/

namespace CheckpointStore

variable {s s' : CheckpointStore} {d d' : Disk} {c : Checkpoint} {result : Except SyncError Unit}

/-- The last checkpoint that can be loaded. -/
def saved? (s : CheckpointStore) (d : Disk) : Option Checkpoint :=
  match s.load d with
  | .ok saved => saved
  | .error _ => none

theorem saved?_of_load {saved : Option Checkpoint} (h : s.load d = .ok saved) :
    s.saved? d = saved := by
  rw [saved?, h]

/-- In the place of the checkpoint file there is nothing, or a file to which directories lead. -/
def Lies (s : CheckpointStore) (d : Disk) : Prop :=
  match s with
  | memory _ => True
  | file dir => d.node? (dir ++ [fileName]) = none ∨
      d.HasDirectory dir ∧ ∃ content, d.node? (dir ++ [fileName]) = some (.file content)

theorem saved?_of_node?_eq_none {dir : Path} (h : d.node? (dir ++ [fileName]) = none) :
    (file dir).saved? d = none := by
  have hread : ∃ e, d.readText (dir ++ [fileName]) = .error e := by
    rw [Disk.readText, Disk.read, h]
    exact ⟨_, rfl⟩
  obtain ⟨e, he⟩ := hread
  unfold saved? load
  dsimp only
  rw [he]
  cases e <;> rfl

theorem lies_of_load (h : s.load d = .ok none) : s.Lies d := by
  cases s with
  | memory saved => trivial
  | file dir =>
      unfold load at h
      dsimp only at h
      split at h
      · rename_i hread
        exact .inl (Disk.node?_of_readText hread)
      · cases h
      -- a text that is read holds a checkpoint or is an error
      · rename_i text _
        cases hparse : parse text <;> rw [hparse] at h <;> cases h

/-- **Whatever happens to other files, the last checkpoint stays.** -/
theorem Lies.rewrites {P : Path → Prop} (h : s.Lies d) (hrewrites : d.Rewrites P d')
    (hother : ∀ dir, s = file dir → ¬P (dir ++ [fileName])) :
    s.Lies d' ∧ s.saved? d' = s.saved? d := by
  cases s with
  | memory saved => exact ⟨trivial, rfl⟩
  | file dir =>
      have hnode := hrewrites.elsewhere (hother dir rfl)
      rcases h with hnone | ⟨hdir, content, hfile⟩
      · rw [hnone] at hnode
        exact ⟨.inl hnode, by rw [saved?_of_node?_eq_none hnone, saved?_of_node?_eq_none hnode]⟩
      · rw [hfile] at hnode
        refine ⟨.inr ⟨hrewrites.hasDirectory hdir, content, hnode⟩, ?_⟩
        unfold saved? load Disk.readText Disk.read
        dsimp only
        rw [hfile, hnode]

theorem not_at_fileName (dir? : Option Path) (dir : Path) :
    ¬BlockFile.At dir? (dir ++ [fileName]) := by
  rintro ⟨dir', -, h, heq⟩
  exact fileName_ne_name h (List.cons.inj (List.append_inj_right' heq rfl)).1

/-- How a checkpoint is saved in a directory: the way to its file cannot be made, or the file is
written. -/
theorem save_file_cases {dir : Path} (hsave : (file dir).save c d = (result, s', d')) :
    s' = file dir ∧
      (d' = d ∧ (∃ e, result = .error (.storage (.createDirectory e))) ∨
        ∃ d₁ written, d.createDirectories dir = .ok d₁ ∧
          d₁.write (dir ++ [fileName]) (content c) = (written, d') ∧
            result = written.mapError fun e => .storage (.writeCheckpoint e)) := by
  unfold save at hsave
  dsimp only at hsave
  cases hmade : d.createDirectories dir with
  | error e =>
      rw [hmade] at hsave
      cases hsave
      exact ⟨rfl, .inl ⟨rfl, e, rfl⟩⟩
  | ok d₁ =>
      rw [hmade] at hsave
      dsimp only at hsave
      split at hsave <;> rename_i hwrite <;> cases hsave
      · exact ⟨rfl, .inr ⟨d₁, .ok (), rfl, hwrite, rfl⟩⟩
      · exact ⟨rfl, .inr ⟨d₁, .error _, rfl, hwrite, rfl⟩⟩

/-- Saving a checkpoint makes the way to its file and changes the file. -/
theorem save_file {dir : Path} (hsave : (file dir).save c d = (result, s', d')) : s' = file dir ∧
    (d' = d ∨ ∃ d₁, d.createDirectories dir = .ok d₁ ∧ d₁.Rewrites (· = dir ++ [fileName]) d') := by
  obtain ⟨hplace, ⟨hsame, -⟩ | ⟨d₁, written, hmade, hwrite, -⟩⟩ := save_file_cases hsave
  · exact ⟨hplace, .inl hsame⟩
  · have hwrites := d₁.rewrites_write (dir ++ [fileName]) (content c)
    rw [hwrite] at hwrites
    exact ⟨hplace, .inr ⟨d₁, hmade, hwrites⟩⟩

/-- **A checkpoint is saved in the place of the last one, and loaded next**, if nothing fails.  The last
one can be lost only when its file is written over. -/
theorem Lies.save (h : s.Lies d) (hsave : s.save c d = (result, s', d')) :
    s'.Lies d' ∧ (result = .ok () → s'.saved? d' = some c) ∧
      ∀ e, result = .error e →
        (∃ cause, e = .storage (.writeCheckpoint cause)) ∨ s'.saved? d' = s.saved? d := by
  cases s with
  | memory saved =>
      cases hsave
      exact ⟨trivial, fun _ => rfl, nofun⟩
  | file dir =>
      obtain ⟨rfl, ⟨rfl, e, rfl⟩ | ⟨d₁, written, hmade, hwrite, rfl⟩⟩ := save_file_cases hsave
      · exact ⟨h, nofun, fun _ _ => .inr rfl⟩
      · have hnode : d₁.node? (dir ++ [fileName]) = d.node? (dir ++ [fileName]) :=
          Disk.node?_createDirectories hmade (Disk.append_not_mem_ancestors dir _)
        have hdir : d'.HasDirectory dir := by
          have hwrites := d₁.rewrites_write (dir ++ [fileName]) (content c)
          rw [hwrite] at hwrites
          exact hwrites.hasDirectory (Disk.createDirectories_ok hmade).2.1
        -- a write that changes nothing leaves the old checkpoint, any other one loses it
        rcases Disk.node?_write hwrite with ⟨⟨e, rfl⟩, hsame⟩ | ⟨kept, hfile, hkept⟩
        · refine ⟨?_, nofun, fun _ he => .inl ⟨e, (Except.error.inj he).symm⟩⟩
          rcases h with hnone | ⟨-, content, hfile⟩
          · exact .inl (hsame.trans (hnode.trans hnone))
          · exact .inr ⟨hdir, content, hsame.trans (hnode.trans hfile)⟩
        · refine ⟨.inr ⟨hdir, kept, hfile⟩, fun hok => ?_, fun e he => .inl ?_⟩
          · cases written with
            | error e => cases hok
            | ok u => exact saved?_of_load (Saved.load (by rw [Saved, hfile, hkept rfl]; rfl) hdir)
          · cases written with
            | error cause => exact ⟨cause, (Except.error.inj he).symm⟩
            | ok u => cases he

end CheckpointStore
end WatchWallet
