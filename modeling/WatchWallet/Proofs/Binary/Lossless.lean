import WatchWallet.Proofs.Instant.Reader
import WatchWallet.Record.Format

/-!
# Binary — Lossless

What is written is read back, and what follows it is left (`Format.Lossless`).  A length takes eight
bytes, so this is said of values that take fewer bytes than eight bytes can count.  There is one lemma
for each way to put formats together, and the records follow from them (`FilledBlock.lossless_binary`).
-/

namespace WatchWallet.Binary

/-! ### Numbers -/

@[simp] theorem length_littleEndian (width n : Nat) : (littleEndian width n).length = width := by
  induction width generalizing n with
  | zero => rfl
  | succ width ih => rw [littleEndian, List.length_cons, ih]

theorem ofLittleEndian_littleEndian {width n : Nat} (hn : n < Nat.pow 256 width) :
    ofLittleEndian (littleEndian width n) = n := by
  induction width generalizing n with
  | zero => exact (Nat.lt_one_iff.1 hn).symm
  | succ width ih =>
      have hdiv : n / 256 < Nat.pow 256 width :=
        Nat.div_lt_of_lt_mul (by rw [Nat.mul_comm]; exact hn)
      rw [littleEndian, ofLittleEndian, ih hdiv]
      show n % 256 % 256 + 256 * (n / 256) = n
      rw [Nat.mod_mod, Nat.mod_add_div]

theorem take_append (front rest : Bytes) : take front.length (front ++ rest) = .ok (front, rest) := by
  induction front with
  | nil => rfl
  | cons b front ih => rw [List.length_cons, List.cons_append, take, ih]; rfl

theorem take_eq_ok {n : Nat} {bs front rest : Bytes} :
    take n bs = .ok (front, rest) ↔ bs = front ++ rest ∧ front.length = n := by
  constructor
  · intro h
    induction n generalizing bs front with
    | zero =>
        cases h
        exact ⟨rfl, rfl⟩
    | succ n ih =>
        cases bs with
        | nil => cases h
        | cons b bs =>
            rw [take] at h
            cases htake : take n bs with
            | error e =>
                rw [htake] at h
                cases h
            | ok p =>
                rw [htake] at h
                cases h
                obtain ⟨hbs, hlength⟩ := ih htake
                exact ⟨congrArg (b :: ·) hbs, congrArg Nat.succ hlength⟩
  · rintro ⟨rfl, rfl⟩
    exact take_append front rest

/-- Bytes are those of the number that they are. -/
theorem littleEndian_ofLittleEndian (bs : Bytes) : littleEndian bs.length (ofLittleEndian bs) = bs := by
  induction bs with
  | nil => rfl
  | cons b bs ih =>
      have hlt : b.toNat < 256 := b.toNat_lt
      rw [List.length_cons, ofLittleEndian, littleEndian, Nat.add_mul_mod_self_left,
        Nat.mod_eq_of_lt hlt, UInt8.ofNat_toNat, Nat.add_mul_div_left _ _ (by decide),
        Nat.div_eq_of_lt hlt, Nat.zero_add, ih]

/-- A number is read from its bytes only. -/
theorem eq_littleEndian_of_readNat {width n : Nat} {bs rest : Bytes}
    (h : readNat width bs = .ok (n, rest)) : bs = littleEndian width n ++ rest := by
  rw [readNat] at h
  cases htake : take width bs with
  | error e =>
      rw [htake] at h
      cases h
  | ok p =>
      obtain ⟨front, after⟩ := p
      rw [htake] at h
      cases h
      obtain ⟨hbs, hlength⟩ := take_eq_ok.1 htake
      rw [hbs, ← hlength, littleEndian_ofLittleEndian]

/-- A number is read back from its bytes. -/
theorem readNat_littleEndian {width n : Nat} (rest : Bytes) (hn : n < Nat.pow 256 width) :
    readNat width (littleEndian width n ++ rest) = .ok (n, rest) := by
  have htake := take_append (littleEndian width n) rest
  rw [length_littleEndian] at htake
  rw [readNat, htake]
  show Except.ok (_, rest) = _
  rw [ofLittleEndian_littleEndian hn]

/-! ### Texts -/

/-- The bytes of an array one by one are its list of bytes. -/
theorem toList_eq (b : ByteArray) : b.toList = b.data.toList := by
  have hloop : ∀ i r, ByteArray.toList.loop b i r = r.reverse ++ b.data.toList.drop i := by
    intro i r
    fun_induction ByteArray.toList.loop b i r with
    | case1 i r hi ih =>
        rw [ih, List.reverse_cons, List.append_assoc, List.singleton_append,
          List.drop_eq_getElem_cons (i := i) (by simpa using hi)]
        congr 2
        exact getElem!_pos b.data i hi
    | case2 i r hi =>
        rw [List.drop_eq_nil_of_le (by simpa using hi), List.append_nil]
  exact (hloop 0 []).trans (by simp)

/-- The bytes of a text are that text. -/
theorem fromUTF8?_toUTF8 (s : String) :
    String.fromUTF8? (ByteArray.mk s.toUTF8.toList.toArray) = some s := by
  rw [toList_eq, Array.toArray_toList]
  exact dif_pos s.isValidUTF8

/-! ### Formats -/

namespace Format

variable {α β : Type}

/-- What is written in fewer bytes than a length can count is read back, whatever follows it. -/
def Lossless (f : Format α) : Prop :=
  ∀ a rest, (f.write a).length < UInt64.size → f.read (f.write a ++ rest) = .ok (a, rest)

/-- Every value takes a byte. -/
def TakesByte (f : Format α) : Prop :=
  ∀ a, f.write a ≠ []

theorem Lossless.decode {f : Format α} (hf : f.Lossless) {a : α}
    (ha : (f.write a).length < UInt64.size) : f.decode (f.write a) = .ok a := by
  have hread := hf a [] ha
  rw [List.append_nil] at hread
  rw [Format.decode, hread]
  rfl

theorem lossless_unit : unit.Lossless :=
  fun _ _ _ => rfl

theorem lossless_uint32 : uint32.Lossless := by
  intro n rest _
  dsimp only [uint32]
  rw [readNat_littleEndian rest n.toNat_lt, Except.map, UInt32.ofNat_toNat]

theorem lossless_uint64 : uint64.Lossless := by
  intro n rest _
  dsimp only [uint64]
  rw [readNat_littleEndian rest n.toNat_lt, Except.map, UInt64.ofNat_toNat]

theorem lossless_text : text.Lossless := by
  intro s rest hs
  dsimp only [text] at hs ⊢
  have hlength : s.toUTF8.toList.length = s.utf8ByteSize := by
    rw [toList_eq, Array.length_toList]
    rfl
  rw [List.length_append, hlength] at hs
  have htake := take_append s.toUTF8.toList rest
  rw [hlength] at htake
  have hsize : s.utf8ByteSize < Nat.pow 256 8 := Nat.lt_of_le_of_lt (Nat.le_add_left ..) hs
  rw [List.append_assoc, readNat_littleEndian _ hsize]
  dsimp only [bind, Except.bind]
  rw [htake]
  dsimp only
  rw [fromUTF8?_toUTF8]

/-- An amount fills its 32 bytes exactly. -/
theorem lossless_amount : amount.Lossless := by
  intro a rest _
  dsimp only [amount]
  have htake := take_append (littleEndian 32 a.val).reverse rest
  rw [List.length_reverse, length_littleEndian] at htake
  have hval : Amount.clamp a.val = a := by
    apply Amount.ext
    rw [Amount.val_clamp]
    exact Nat.min_eq_left (Nat.le_sub_one_of_lt a.lt)
  rw [List.append_assoc, readNat_littleEndian _ (by decide)]
  dsimp only [bind, Except.bind]
  rw [htake]
  dsimp only
  rw [if_pos rfl, List.reverse_reverse, ofLittleEndian_littleEndian a.lt, hval]

theorem lossless_instant : instant.Lossless := by
  intro t rest ht
  dsimp only [instant] at ht ⊢
  rw [lossless_text _ rest ht]
  dsimp only [bind, Except.bind]
  rw [Instant.parse_toText]

variable {f : Format α} {g : Format β}

theorem Lossless.map (hf : f.Lossless) {build : α → β} {back : β → α}
    (hback : ∀ b, build (back b) = b) : (f.map build back).Lossless := by
  intro b rest hb
  dsimp only [Format.map] at hb ⊢
  rw [hf _ rest hb, Except.map, hback]

theorem Lossless.pair (hf : f.Lossless) (hg : g.Lossless) : (f.pair g).Lossless := by
  rintro ⟨a, b⟩ rest hab
  dsimp only [Format.pair] at hab ⊢
  rw [List.length_append] at hab
  rw [List.append_assoc, hf a _ (Nat.lt_of_le_of_lt (Nat.le_add_right ..) hab)]
  dsimp only [bind, Except.bind]
  rw [hg b rest (Nat.lt_of_le_of_lt (Nat.le_add_left ..) hab)]
  rfl

theorem Lossless.option (hf : f.Lossless) : f.option.Lossless := by
  intro o rest ho
  cases o with
  | none => rfl
  | some a =>
      dsimp only [Format.option] at ho ⊢
      rw [List.length_cons] at ho
      rw [List.cons_append]
      show (f.read (f.write a ++ rest)).map _ = _
      rw [hf a rest (Nat.lt_of_succ_lt ho)]
      rfl

/-- Items are read as long as the bytes may hold them. -/
theorem readItems_flatMap (hf : f.Lossless) (as : List α) (rest : Bytes) {fuel : Nat}
    (hfuel : as.length ≤ fuel) (has : (as.flatMap f.write).length < UInt64.size) :
    readItems f as.length (as.flatMap f.write ++ rest) fuel = .ok (as, rest) := by
  induction as generalizing fuel with
  | nil => cases fuel <;> rfl
  | cons a as ih =>
      cases fuel with
      | zero => exact absurd hfuel (Nat.not_succ_le_zero _)
      | succ fuel =>
          rw [List.flatMap_cons, List.length_append] at has
          rw [List.flatMap_cons, List.append_assoc, List.length_cons, readItems,
            if_neg (Nat.succ_ne_zero _), hf a _ (Nat.lt_of_le_of_lt (Nat.le_add_right ..) has)]
          dsimp only [bind, Except.bind]
          rw [Nat.add_sub_cancel, ih (Nat.le_of_succ_le_succ hfuel)
            (Nat.lt_of_le_of_lt (Nat.le_add_left ..) has)]
          rfl

theorem length_le_length_flatMap (hf : f.TakesByte) (as : List α) :
    as.length ≤ (as.flatMap f.write).length := by
  induction as with
  | nil => exact Nat.le_refl 0
  | cons a as ih =>
      have hpos := List.length_pos_iff.2 (hf a)
      rw [List.flatMap_cons, List.length_append, List.length_cons]
      omega

theorem Lossless.list (hf : f.Lossless) (hbyte : f.TakesByte) : f.list.Lossless := by
  intro as rest has
  dsimp only [Format.list] at has ⊢
  rw [List.length_append] at has
  have hitems := Nat.lt_of_le_of_lt (Nat.le_add_left ..) has
  have hle := length_le_length_flatMap hbyte as
  have hlength : as.length < Nat.pow 256 8 := Nat.lt_of_le_of_lt hle hitems
  rw [List.append_assoc, readNat_littleEndian _ hlength]
  dsimp only [bind, Except.bind]
  refine readItems_flatMap hf as rest (Nat.le_succ_of_le (Nat.le_trans hle ?_)) hitems
  rw [List.length_append]
  exact Nat.le_add_right ..

theorem takesByte_uint32 : uint32.TakesByte :=
  fun _ => List.cons_ne_nil _ _

theorem takesByte_uint64 : uint64.TakesByte :=
  fun _ => List.cons_ne_nil _ _

theorem TakesByte.pair (hf : f.TakesByte) : (f.pair g).TakesByte :=
  fun a => List.append_ne_nil_of_left_ne_nil (hf a.1) _

theorem TakesByte.map (hf : f.TakesByte) {build : α → β} {back : β → α} :
    (f.map build back).TakesByte :=
  fun b => hf (back b)

end Format
end WatchWallet.Binary

/-! ### Records -/

namespace WatchWallet
open Binary.Format

theorem Block.lossless_binary : Block.binary.Lossless :=
  (lossless_text.pair (lossless_uint32.pair (lossless_instant.pair lossless_unit))).map fun _ => rfl

theorem Input.lossless_binary : Input.binary.Lossless :=
  (lossless_uint64.pair (lossless_amount.option.pair (lossless_text.option.pair
    (lossless_uint32.option.pair (lossless_text.option.pair (lossless_text.option.pair
    (lossless_text.option.pair (lossless_uint32.pair lossless_unit)))))))).map fun _ => rfl

theorem Output.lossless_binary : Output.binary.Lossless :=
  (lossless_uint64.pair (lossless_text.pair (lossless_amount.pair (lossless_text.option.pair
    (lossless_text.pair (lossless_text.pair lossless_unit)))))).map fun _ => rfl

theorem Transaction.lossless_binary : Transaction.binary.Lossless :=
  (lossless_uint32.pair (lossless_text.pair (lossless_instant.pair (lossless_uint64.pair
    (Block.lossless_binary.option.pair
    ((Input.lossless_binary.list takesByte_uint64.pair.map).pair
    ((Output.lossless_binary.list takesByte_uint64.pair.map).pair
    (lossless_amount.option.pair (lossless_uint64.pair lossless_unit))))))))).map fun _ => rfl

/-- **Filled blocks are read back from their bytes.** -/
theorem FilledBlock.lossless_binary : FilledBlock.binary.Lossless :=
  (Block.lossless_binary.pair
    ((Transaction.lossless_binary.list takesByte_uint32.pair.map).pair lossless_unit)).map
    fun _ => rfl

end WatchWallet
