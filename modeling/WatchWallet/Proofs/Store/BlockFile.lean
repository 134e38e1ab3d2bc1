import WatchWallet.Proofs.Binary.Lossless
import WatchWallet.Proofs.Store.Blocks
import WatchWallet.Proofs.Store.Disk

/-!
# Store — Block file

The name of a block file gives its height back (`height?_name`), and no two heights share a name.  A
directory is loaded as the blocks that its files contribute (`load_eq_ok_iff`): those that they hold at the
heights in their names (`load_eq`).
-/

namespace WatchWallet.BlockFile

/-! ### Names -/

theorem toList_name (h : Nat) :
    (name h).toList = nameStart ++ (Text.padLeft 10 (Text.digits h) ++ nameEnd) := by
  rw [name, String.toList_ofList, List.append_assoc]

/-- What stands between the two parts of a name is found again. -/
theorem middle?_append (mid : List Char) : middle? (nameStart ++ (mid ++ nameEnd)) = some mid := by
  have hstart : nameStart.isPrefixOf (nameStart ++ (mid ++ nameEnd)) = true :=
    List.isPrefixOf_iff_prefix.2 (List.prefix_append ..)
  have hend : nameEnd.isSuffixOf (mid ++ nameEnd) = true :=
    List.isSuffixOf_iff_suffix.2 (List.suffix_append ..)
  rw [middle?, if_pos hstart, List.drop_left]
  dsimp only
  rw [if_pos hend, List.length_append, Nat.add_sub_cancel, List.take_left]

theorem uint32?_padLeft (width n : Nat) : Text.uint32? (Text.padLeft width (Text.digits n)) =
    if n < UInt32.size then some n else none := by
  have hvalue := Text.value_padLeft_digits width n
  have hne := Text.padLeft_digits_ne_nil width n
  have hdigits : ∀ c ∈ Text.padLeft width (Text.digits n), Text.isDigit c = true :=
    fun c => Text.isDigit_of_mem_padLeft
  generalize Text.padLeft width (Text.digits n) = ds at hvalue hne hdigits
  have hsign : ∀ {r}, ds ≠ '+' :: r := by
    rintro r rfl
    exact absurd (hdigits '+' List.mem_cons_self) (by decide)
  have hall : ds ≠ [] ∧ ds.all Text.isDigit = true := ⟨hne, List.all_eq_true.2 hdigits⟩
  simp only [Text.uint32?]
  split <;> simp_all

/-- **The name of a block file gives its height back**, if it is a height. -/
theorem height?_name (h : Nat) : height? (name h) = if h < UInt32.size then some h else none := by
  rw [height?, toList_name, middle?_append]
  exact uint32?_padLeft 10 h

theorem eq_of_height?_name {h k : Nat} (hk : height? (name h) = some k) : h = k := by
  rw [height?_name] at hk
  split at hk
  · exact Option.some.inj hk
  · cases hk

theorem name_inj {h k : Nat} (heq : name h = name k) : h = k := by
  have hlist := congrArg String.toList heq
  rw [toList_name, toList_name, List.append_cancel_left_eq, List.append_cancel_right_eq] at hlist
  rw [← Text.value_padLeft_digits 10 h, hlist, Text.value_padLeft_digits]

/-! ### Loading -/

/-- A block is read back from the file for its height. -/
theorem block?_write {block : FilledBlock}
    (hfits : (FilledBlock.binary.write block).length < UInt64.size) :
    block? block.height (FilledBlock.binary.write block) = some block := by
  rw [block?, FilledBlock.lossless_binary.decode hfits]
  exact if_pos rfl

theorem height_of_block? {h : Nat} {content : Bytes} {block : FilledBlock}
    (hblock : block? h content = some block) : block.height = h := by
  unfold block? at hblock
  split at hblock
  · split at hblock
    · cases hblock
      assumption
    · cases hblock
  · cases hblock

variable {d : Disk} {dir : Path} {blocks acc : Blocks} {names : List String} {n : String}

/-- What is named for a height is a file. -/
def Legible (d : Disk) (dir : Path) (n : String) : Prop :=
  height? n ≠ none → ∃ content, d.node? (dir ++ [n]) = some (.file content)

/-- The block that a file of a directory contributes when the directory is loaded. -/
def found? (d : Disk) (dir : Path) (n : String) : Option FilledBlock :=
  (height? n).bind fun h =>
    match d.node? (dir ++ [n]) with
    | some (.file content) => block? h content
    | _ => none

theorem found?_eq {h : Nat} {content : Bytes} (hn : height? n = some h)
    (hnode : d.node? (dir ++ [n]) = some (.file content)) : found? d dir n = block? h content := by
  rw [found?, hn]
  dsimp only [Option.bind]
  rw [hnode]

theorem found?_of_height?_eq_none (hn : height? n = none) : found? d dir n = none := by
  rw [found?, hn]
  rfl

theorem found?_congr {d' : Disk}
    (h : height? n ≠ none → d'.node? (dir ++ [n]) = d.node? (dir ++ [n])) :
    found? d' dir n = found? d dir n := by
  cases hn : height? n with
  | none => rw [found?_of_height?_eq_none hn, found?_of_height?_eq_none hn]
  | some k => rw [found?, found?, h (hn ▸ Option.some_ne_none k)]

/-- A block that is found stands at the height in the name of its file. -/
theorem found?_eq_some {block : FilledBlock} (h : found? d dir n = some block) :
    height? n = some block.height ∧ ∃ content, d.node? (dir ++ [n]) = some (.file content) := by
  cases hn : height? n with
  | none =>
      rw [found?_of_height?_eq_none hn] at h
      cases h
  | some k =>
      cases hnode : d.node? (dir ++ [n]) with
      | none =>
          rw [found?, hn, Option.bind_some, hnode] at h
          cases h
      | some node =>
          cases node with
          | directory =>
              rw [found?, hn, Option.bind_some, hnode] at h
              cases h
          | file content =>
              rw [found?_eq hn hnode] at h
              exact ⟨congrArg some (height_of_block? h).symm, content, rfl⟩

theorem loadOne_eq (hn : Legible d dir n) :
    loadOne d dir acc n = .ok ((found? d dir n).elim acc acc.add) := by
  cases hheight : height? n with
  | none =>
      rw [loadOne, found?, hheight]
      rfl
  | some h =>
      obtain ⟨content, hnode⟩ := hn (hheight ▸ Option.some_ne_none h)
      rw [loadOne, found?_eq hheight hnode, hheight]
      dsimp only
      rw [Disk.read, hnode]
      dsimp only [bind, Except.bind]
      cases block? h content <;> rfl

/-- One file after another is loaded over what is loaded already. -/
theorem foldlM_loadOne (hnames : ∀ n ∈ names, Legible d dir n) :
    names.foldlM (loadOne d dir) acc = .ok (acc.addAll (names.filterMap (found? d dir))) := by
  induction names generalizing acc with
  | nil => rfl
  | cons n names ih =>
      rw [List.foldlM_cons, loadOne_eq (hnames n List.mem_cons_self)]
      refine (ih fun m hm => hnames m (List.mem_cons_of_mem n hm)).trans ?_
      cases hfound : found? d dir n with
      | none => rw [List.filterMap_cons_none hfound, Option.elim_none]
      | some block =>
          rw [List.filterMap_cons_some hfound, Option.elim_some]
          rfl

/-- A directory that is loaded has files wherever a name is that of a block file. -/
theorem legible_of_foldlM (h : names.foldlM (loadOne d dir) acc = .ok blocks) :
    ∀ n ∈ names, Legible d dir n := by
  induction names generalizing acc with
  | nil => exact fun n hn => absurd hn List.not_mem_nil
  | cons n names ih =>
      rw [List.foldlM_cons] at h
      obtain ⟨next, hn, hns⟩ := Except.bind_eq_ok.1 h
      intro m hm
      rcases List.mem_cons.1 hm with rfl | hm
      · intro hheight
        obtain ⟨k, hk⟩ := Option.ne_none_iff_exists'.1 hheight
        rw [loadOne, hk, Disk.read] at hn
        dsimp only at hn
        cases hnode : d.node? (dir ++ [m]) with
        | none =>
            rw [hnode] at hn
            cases hn
        | some node =>
            cases node with
            | directory =>
                rw [hnode] at hn
                cases hn
            | file content => exact ⟨content, rfl⟩
      · exact ih hns m hm

/-- **A directory is loaded as the blocks that its files contribute.** -/
theorem load_eq_ok_iff :
    load d dir names = .ok blocks ↔ (∀ n ∈ names, Legible d dir n) ∧
      blocks = Blocks.empty.addAll (names.filterMap (found? d dir)) := by
  constructor
  · intro h
    have hlegible := legible_of_foldlM h
    exact ⟨hlegible, Except.ok.inj (h.symm.trans (foldlM_loadOne hlegible))⟩
  · rintro ⟨hlegible, rfl⟩
    exact foldlM_loadOne hlegible

/-- The file in a directory, if it is named for a height, holds the block at that height. -/
def Holds (d : Disk) (dir : Path) (blocks : Blocks) (n : String) : Prop :=
  ∀ h, height? n = some h → ∃ block, block.height = h ∧ blocks.at? h = some block ∧
    (FilledBlock.binary.write block).length < UInt64.size ∧
    d.node? (dir ++ [n]) = some (.file (FilledBlock.binary.write block))

theorem Holds.legible (h : Holds d dir blocks n) : Legible d dir n := by
  intro hne
  obtain ⟨k, hk⟩ := Option.ne_none_iff_exists'.1 hne
  obtain ⟨block, -, -, -, hnode⟩ := h k hk
  exact ⟨_, hnode⟩

theorem Holds.found? {block : FilledBlock} (h : Holds d dir blocks n)
    (hfound : found? d dir n = some block) : blocks.at? block.height = some block := by
  have hn := (found?_eq_some hfound).1
  obtain ⟨block', hheight, hat, hfits, hnode⟩ := h _ hn
  rw [found?_eq hn hnode, ← hheight, block?_write hfits] at hfound
  exact hat.trans hfound

/-- **A directory whose block files hold blocks is loaded as these blocks.** -/
theorem load_eq (hnames : ∀ n ∈ names, Holds d dir blocks n)
    (hall : ∀ h block, blocks.at? h = some block → h < UInt32.size ∧ name h ∈ names) :
    ∃ loaded, load d dir names = .ok loaded ∧ ∀ h, loaded.at? h = blocks.at? h := by
  refine ⟨_, load_eq_ok_iff.2 ⟨fun n hn => (hnames n hn).legible, rfl⟩, fun h => ?_⟩
  rcases Blocks.empty.at?_addAll (names.filterMap (found? d dir)) h with
    ⟨block, hmem, rfl, hat⟩ | ⟨hnone, hat⟩
  · obtain ⟨n, hn, hfound⟩ := List.mem_filterMap.1 hmem
    rw [hat, (hnames n hn).found? hfound]
  · rw [hat, Blocks.at?_empty]
    refine Eq.symm (Option.eq_none_iff_forall_ne_some.2 fun block hblock => ?_)
    obtain ⟨hlt, hmem⟩ := hall h block hblock
    have hname : height? (name h) = some h := by rw [height?_name, if_pos hlt]
    obtain ⟨block', hheight, -, hfits, hnode⟩ := hnames _ hmem h hname
    refine hnone block' (List.mem_filterMap.2 ⟨name h, hmem, ?_⟩) hheight
    rw [found?_eq hname hnode, ← hheight, block?_write hfits]

end WatchWallet.BlockFile
