import Mathlib.Tactic.Common
import WatchWallet.Checkpoint
import WatchWallet.Proofs.Binary.Lossless
import WatchWallet.Proofs.Store.BlockFile
import WatchWallet.Trust
import WatchWallet.Utxo.Format

/-!
# Binary — Delimited

Where a value ends is told by its own bytes (`Format.SelfDelimiting`): whatever follows them, the value is
read back, and when some of the last ones are missing, the bytes run out.  A reader looks at what follows a
value as little as at what has been read before it (`Reader.Onward`), so a front of the bytes that was read
as something else would be read so with the rest as well.  The records follow
(`selfDelimiting_records`), and a torn file is never loaded as a block.
-/

namespace WatchWallet.Binary

variable {α β : Type}

/-! ### What follows is not looked at -/

/-- What a reader says of some bytes, it says of them with more bytes behind: the value is the same, and so
is the refusal, unless the bytes have run out. -/
def Reader.Onward (read : Reader α) : Prop :=
  ∀ bs more, read bs = .error .exhausted ∨
    read (bs ++ more) = (read bs).map fun (a, rest) => (a, rest ++ more)

namespace Reader.Onward

theorem pure (a : α) : Onward fun bs => .ok (a, bs) :=
  fun _ _ => .inr rfl

theorem refuse (e : Error) : Onward (fun _ => .error e : Reader α) :=
  fun _ _ => .inr rfl

/-- One reader goes on where another one has stopped. -/
theorem bind {read : Reader α} {next : α × Bytes → Except Error (β × Bytes)} (hread : Onward read)
    (hnext : ∀ a, Onward fun bs => next (a, bs)) : Onward fun bs => read bs >>= next := by
  intro bs more
  dsimp only
  rcases hread bs more with hout | hsame
  · rw [hout]
    exact .inl rfl
  · rw [hsame]
    rcases read bs with e | ⟨a, rest⟩
    · exact .inr rfl
    · exact hnext a rest more

theorem map {read : Reader α} (hread : Onward read) (f : α → β) :
    Onward fun bs => (read bs).map fun (a, rest) => (f a, rest) := by
  intro bs more
  dsimp only
  rcases hread bs more with hout | hsame
  · rw [hout]
    exact .inl rfl
  · rw [hsame]
    rcases read bs with e | ⟨a, rest⟩ <;> exact .inr rfl

theorem take (n : Nat) : Onward (take n) := by
  induction n with
  | zero => exact pure []
  | succ n ih =>
      intro bs more
      cases bs with
      | nil => exact .inl rfl
      | cons b bs => exact ih.map (b :: ·) bs more

theorem readNat (width : Nat) : Onward (readNat width) :=
  (take width).map ofLittleEndian

end Reader.Onward

namespace Format

open Reader

theorem onward_unit : Onward unit.read :=
  .pure ()

theorem onward_uint32 : Onward uint32.read :=
  (Onward.readNat 4).map UInt32.ofNat

theorem onward_uint64 : Onward uint64.read :=
  (Onward.readNat 8).map UInt64.ofNat

theorem onward_text : Onward text.read := by
  refine (Onward.readNat 8).bind fun n => (Onward.take n).bind fun front => ?_
  dsimp only
  cases String.fromUTF8? (ByteArray.mk front.toArray) with
  | some s => exact .pure s
  | none => exact .refuse .badText

theorem onward_amount : Onward amount.read := by
  refine (Onward.readNat 8).bind fun n => (Onward.take n).bind fun front => ?_
  by_cases hn : n = 32
  · simp only [hn, if_true]
    exact .pure _
  · simp only [hn, if_false]
    exact .refuse _

theorem onward_instant : Onward instant.read := by
  refine onward_text.bind fun s => ?_
  dsimp only
  cases Instant.parse s with
  | ok t => exact .pure t
  | error e => exact .refuse .badInstant

theorem onward_variants [BEq α] (known : List α) : Onward (variants known).read := by
  refine (Onward.readNat 4).bind fun n => ?_
  dsimp only
  cases known[n]? with
  | some a => exact .pure a
  | none => exact .refuse .badVariant

variable {f : Format α} {g : Format β}

theorem onward_map (hf : Onward f.read) {build : α → β} {back : β → α} :
    Onward (f.map build back).read :=
  hf.map build

theorem onward_pair (hf : Onward f.read) (hg : Onward g.read) : Onward (f.pair g).read :=
  hf.bind fun a => hg.bind fun b => .pure (a, b)

theorem onward_option (hf : Onward f.read) : Onward f.option.read := by
  refine (Onward.take 1).bind fun front => ?_
  by_cases hnone : front = [0]
  · subst hnone
    exact .pure none
  by_cases hsome : front = [1]
  · subst hsome
    exact hf.map some
  · refine (congrArg Onward (funext fun bs => ?_)).mpr (.refuse .badOption)
    dsimp only
    split
    · exact absurd rfl hnone
    · exact absurd rfl hsome
    · rfl

/-- Items are read alike when more of them may follow. -/
theorem readItems_append (hf : Onward f.read) (more : Bytes) (n : Nat) (bs : Bytes) {fuel fuel' : Nat}
    (hfuel : fuel ≤ fuel') : readItems f n bs fuel = .error .exhausted ∨
      readItems f n (bs ++ more) fuel' = (readItems f n bs fuel).map fun (as, rest) =>
        (as, rest ++ more) := by
  -- the smaller fuel runs out, or as many items are read with the larger one
  induction fuel generalizing n bs fuel' with
  | zero =>
      by_cases hn : n = 0
      · subst hn
        right
        cases fuel' <;> rfl
      · left
        rw [readItems, if_neg hn]
  | succ fuel ih =>
      obtain ⟨fuel', rfl⟩ := Nat.exists_eq_add_of_lt (Nat.lt_of_succ_le hfuel)
      by_cases hn : n = 0
      · subst hn
        exact .inr rfl
      rw [readItems, readItems, if_neg hn, if_neg hn]
      rcases hf bs more with hout | hsame
      · rw [hout]
        exact .inl rfl
      · rw [hsame]
        rcases f.read bs with e | ⟨a, rest⟩
        · exact .inr rfl
        · dsimp only [Except.map, Bind.bind, Except.bind]
          rcases ih (n - 1) rest (Nat.le_add_right fuel fuel') with hout | hsame
          · rw [hout]
            exact .inl rfl
          · rw [hsame]
            rcases readItems f (n - 1) rest fuel with e | ⟨as, rest⟩ <;> exact .inr rfl

theorem onward_list (hf : Onward f.read) : Onward f.list.read := by
  refine (Onward.readNat 8).bind fun n bs more => readItems_append hf more n bs ?_
  rw [List.length_append]
  omega

/-! ### Values that end where they say -/

/-- A value that is written in fewer bytes than a length can count is read back whatever follows it, and
what follows it is left; without some of its last bytes, the bytes run out. -/
structure SelfDelimiting (f : Format α) : Prop where
  read : ∀ {a} rest, (f.write a).length < UInt64.size → f.read (f.write a ++ rest) = .ok (a, rest)
  decode : ∀ {a} rest, (f.write a).length < UInt64.size → f.decode (f.write a ++ rest) = .ok a
  torn : ∀ {a front}, (f.write a).length < UInt64.size → front <+: f.write a → front ≠ f.write a →
    f.decode front = .error .exhausted

/-- **What is written by a format without losses, and is read without looking on, ends where it says.** -/
theorem Lossless.selfDelimiting (hf : f.Lossless) (honward : Onward f.read) : f.SelfDelimiting := by
  refine ⟨fun {a} rest ha => hf a rest ha, fun {a} rest ha => ?_, fun {a front} ha hfront hne => ?_⟩
  · rw [Format.decode, hf a rest ha]
    rfl
  obtain ⟨more, hmore⟩ := hfront
  have hread := hf a [] ha
  rw [List.append_nil, ← hmore] at hread
  rw [Format.decode]
  rcases honward front more with hout | hsame
  · rw [hout]
    rfl
  · rw [hread] at hsame
    rcases hfound : f.read front with e | ⟨b, rest⟩ <;> rw [hfound] at hsame
    · cases hsame
    -- the rest of the bytes would be left over, but nothing is
    · have hnil : [] = rest ++ more := congrArg Prod.snd (Except.ok.inj hsame)
      obtain ⟨-, rfl⟩ := List.append_eq_nil_iff.1 hnil.symm
      exact absurd ((List.append_nil front).symm.trans hmore) hne

theorem lossless_variants [BEq α] [LawfulBEq α] {known : List α} (hall : ∀ a, a ∈ known)
    (hlength : known.length < Nat.pow 256 4) : (variants known).Lossless := by
  intro a rest _
  have hlt := List.idxOf_lt_length_of_mem (hall a)
  dsimp only [variants]
  rw [readNat_littleEndian rest (Nat.lt_trans hlt hlength)]
  dsimp only [bind, Except.bind]
  rw [List.getElem?_eq_getElem hlt, List.getElem_idxOf hlt]

theorem takesByte_text : text.TakesByte :=
  fun _ => List.cons_ne_nil _ _

end Format
end WatchWallet.Binary

/-! ### Records -/

namespace WatchWallet
open Binary.Format

theorem Block.onward_binary : Block.binary.read.Onward :=
  onward_map (onward_pair onward_text (onward_pair onward_uint32
    (onward_pair onward_instant onward_unit)))

theorem Input.onward_binary : Input.binary.read.Onward :=
  onward_map (onward_pair onward_uint64 (onward_pair (onward_option onward_amount)
    (onward_pair (onward_option onward_text) (onward_pair (onward_option onward_uint32)
    (onward_pair (onward_option onward_text) (onward_pair (onward_option onward_text)
    (onward_pair (onward_option onward_text) (onward_pair onward_uint32 onward_unit))))))))

theorem Output.onward_binary : Output.binary.read.Onward :=
  onward_map (onward_pair onward_uint64 (onward_pair onward_text (onward_pair onward_amount
    (onward_pair (onward_option onward_text) (onward_pair onward_text
    (onward_pair onward_text onward_unit))))))

theorem Transaction.onward_binary : Transaction.binary.read.Onward :=
  onward_map (onward_pair onward_uint32 (onward_pair onward_text (onward_pair onward_instant
    (onward_pair onward_uint64 (onward_pair (onward_option Block.onward_binary)
    (onward_pair (onward_list Input.onward_binary) (onward_pair (onward_list Output.onward_binary)
    (onward_pair (onward_option onward_amount) (onward_pair onward_uint64 onward_unit)))))))))

theorem FilledBlock.onward_binary : FilledBlock.binary.read.Onward :=
  onward_map (onward_pair Block.onward_binary
    (onward_pair (onward_list Transaction.onward_binary) onward_unit))

theorem Checkpoint.lossless_binary : Checkpoint.binary.Lossless :=
  (lossless_uint32.pair (lossless_text.pair (lossless_instant.pair lossless_unit))).map fun _ => rfl

theorem Checkpoint.onward_binary : Checkpoint.binary.read.Onward :=
  onward_map (onward_pair onward_uint32 (onward_pair onward_text
    (onward_pair onward_instant onward_unit)))

theorem TrustLevel.lossless_binary : TrustLevel.binary.Lossless :=
  lossless_variants (fun level => by cases level <;> decide) (by decide)

namespace Utxo

theorem Key.lossless_binary : Key.binary.Lossless :=
  (lossless_text.pair (lossless_uint32.pair lossless_unit)).map fun _ => rfl

theorem Key.onward_binary : Key.binary.read.Onward :=
  onward_map (onward_pair onward_text (onward_pair onward_uint32 onward_unit))

theorem Value.lossless_binary : Value.binary.Lossless :=
  (lossless_amount.pair (lossless_text.pair lossless_unit)).map fun _ => rfl

theorem Value.onward_binary : Value.binary.read.Onward :=
  onward_map (onward_pair onward_amount (onward_pair onward_text onward_unit))

/-- A ledger is its two sorted lists. -/
theorem Ledger.ofParts_parts (l : Ledger) : ofParts l.parts = l := by
  have havailable : Std.ExtTreeMap.ofList l.available.toList Key.order = l.available := by
    refine Std.ExtTreeMap.ext_getElem? fun k => ?_
    cases hk : l.available[k]? with
    | some v =>
        exact Std.ExtTreeMap.getElem?_ofList_of_mem Std.ReflCmp.compare_self
          Std.ExtTreeMap.distinct_keys_toList
          (Std.ExtTreeMap.mem_toList_iff_getElem?_eq_some.2 hk)
    | none =>
        refine Std.ExtTreeMap.getElem?_ofList_of_contains_eq_false ?_
        rw [Std.ExtTreeMap.map_fst_toList_eq_keys, Std.ExtTreeMap.contains_keys,
          Std.ExtTreeMap.contains_eq_isSome_getElem?, hk]
        rfl
  have hspent : Std.ExtTreeSet.ofList l.spent.toList Key.order = l.spent := by
    refine Std.ExtTreeSet.ext_mem fun k => ?_
    rw [Std.ExtTreeSet.mem_ofList, Std.ExtTreeSet.contains_toList]
    exact Iff.rfl
  obtain ⟨available, spent⟩ := l
  show Ledger.mk _ _ = _
  rw [show Std.ExtTreeMap.ofList available.toList Key.order = available from havailable,
    show Std.ExtTreeSet.ofList spent.toList Key.order = spent from hspent]

theorem Ledger.lossless_binary : Ledger.binary.Lossless :=
  (((Key.lossless_binary.pair Value.lossless_binary).list takesByte_text.pair.map.pair).pair
    ((Key.lossless_binary.list takesByte_text.pair.map).pair lossless_unit)).map Ledger.ofParts_parts

theorem Ledger.onward_binary : Ledger.binary.read.Onward :=
  onward_map (onward_pair (onward_list (onward_pair Key.onward_binary Value.onward_binary))
    (onward_pair (onward_list Key.onward_binary) onward_unit))

end Utxo

/-! ### Files -/

variable {block : FilledBlock} {front : Bytes} {d : Disk} {dir : Path} {n : String}

theorem FilledBlock.selfDelimiting_binary : FilledBlock.binary.SelfDelimiting :=
  FilledBlock.lossless_binary.selfDelimiting FilledBlock.onward_binary

/-- A torn file contributes nothing to the blocks that are loaded. -/
theorem BlockFile.loadOne_of_torn (hfits : (FilledBlock.binary.write block).length < UInt64.size)
    (hfront : front <+: FilledBlock.binary.write block) (hne : front ≠ FilledBlock.binary.write block)
    (hnode : d.node? (dir ++ [n]) = some (.file front)) (blocks : Blocks) :
    loadOne d dir blocks n = .ok blocks := by
  rw [loadOne_eq fun _ => ⟨front, hnode⟩]
  cases hn : height? n with
  | none =>
      rw [found?_of_height?_eq_none hn]
      rfl
  | some h =>
      rw [found?_eq hn hnode, block?, FilledBlock.selfDelimiting_binary.torn hfits hfront hne]
      rfl

/-- **Every record ends where its bytes say**: it is read back whatever follows them, and when some of them
are missing the bytes run out, so that a torn file is never loaded as a block. -/
theorem selfDelimiting_records :
    Binary.Format.amount.SelfDelimiting ∧
    Block.binary.SelfDelimiting ∧ Input.binary.SelfDelimiting ∧ Output.binary.SelfDelimiting ∧
    Transaction.binary.SelfDelimiting ∧ FilledBlock.binary.SelfDelimiting ∧
    Utxo.Key.binary.SelfDelimiting ∧ Utxo.Value.binary.SelfDelimiting ∧
    Utxo.Ledger.binary.SelfDelimiting ∧
    TrustLevel.binary.SelfDelimiting ∧ Checkpoint.binary.SelfDelimiting ∧
    ∀ {block front}, (FilledBlock.binary.write block).length < UInt64.size →
      front <+: FilledBlock.binary.write block → front ≠ FilledBlock.binary.write block →
      ∀ {d : Disk} {dir n}, d.node? (dir ++ [n]) = some (.file front) →
        ∀ blocks, BlockFile.loadOne d dir blocks n = .ok blocks :=
  ⟨lossless_amount.selfDelimiting onward_amount,
    Block.lossless_binary.selfDelimiting Block.onward_binary,
    Input.lossless_binary.selfDelimiting Input.onward_binary,
    Output.lossless_binary.selfDelimiting Output.onward_binary,
    Transaction.lossless_binary.selfDelimiting Transaction.onward_binary,
    FilledBlock.selfDelimiting_binary,
    Utxo.Key.lossless_binary.selfDelimiting Utxo.Key.onward_binary,
    Utxo.Value.lossless_binary.selfDelimiting Utxo.Value.onward_binary,
    Utxo.Ledger.lossless_binary.selfDelimiting Utxo.Ledger.onward_binary,
    TrustLevel.lossless_binary.selfDelimiting (onward_variants TrustLevel.all),
    Checkpoint.lossless_binary.selfDelimiting Checkpoint.onward_binary,
    fun hfits hfront hne _ _ _ hnode => BlockFile.loadOne_of_torn hfits hfront hne hnode⟩

/-- A block with one transaction, before another byte, and without its last byte in the file for its
height. -/
theorem selfDelimiting_records_oneBlock :
    let header : Block := ⟨"f", 5, .epoch⟩
    let spent : Input := { previousHash := some "s", previousIndex := some 1, address := some "b" }
    let paid : Output := { value := ⟨700, by decide⟩, address := some "a" }
    let tx : Transaction := { hash := "t", block := some header, inputs := [spent], outputs := [paid] }
    let block : FilledBlock := ⟨header, [tx]⟩
    let content := FilledBlock.binary.write block
    let disk : Disk :=
      (⟨[(["d"], .directory)], []⟩ : Disk).put ["d", BlockFile.name 5] (.file content.dropLast)
    content.length < UInt64.size ∧ FilledBlock.binary.decode (content ++ [7]) = .ok block ∧
      content.dropLast <+: content ∧ content.dropLast ≠ content ∧
      FilledBlock.binary.decode content.dropLast = .error .exhausted ∧
      BlockFile.loadOne disk ["d"] .empty (BlockFile.name 5) = .ok .empty := by
  intro header spent paid tx block content disk
  have hlength : 0 < content.length ∧ content.length < 1000 := by decide +kernel
  have hfits : content.length < UInt64.size := Nat.lt_trans hlength.2 (by decide)
  have hne : content.dropLast ≠ content := fun heq => by
    have hshort := congrArg List.length heq
    rw [List.length_dropLast] at hshort
    omega
  have hnode : disk.node? (["d"] ++ [BlockFile.name 5]) = some (.file content.dropLast) :=
    (Disk.node?_put (List.cons_ne_nil _ _)).trans (if_pos rfl)
  obtain ⟨-, -, -, -, -, hblock, -, -, -, -, -, htorn⟩ := selfDelimiting_records
  exact ⟨hfits, hblock.decode [7] hfits, List.dropLast_prefix content, hne,
    hblock.torn hfits (List.dropLast_prefix content) hne,
    htorn hfits (List.dropLast_prefix content) hne hnode .empty⟩

end WatchWallet
