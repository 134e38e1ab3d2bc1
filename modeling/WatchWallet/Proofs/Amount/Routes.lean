import WatchWallet.Proofs.Amount.Basic
import WatchWallet.Proofs.Binary.Lossless
import WatchWallet.Proofs.Except
import WatchWallet.Proofs.Json.Quotes

/-!
# Amount — Routes

An amount comes in as a text, as a text or a number of JSON, or as bytes.  On each of these routes it is the
number that is written there, and what does not write an amount is refused: texts are read as the digits in
them (`parse_eq_ok_iff`), JSON values as texts or numbers of 64 bits (`Json.Format.decode_amount_eq_ok`),
and bytes as 32 of them, the greatest first (`Binary.Format.read_amount_eq_ok`).
-/

namespace WatchWallet

/-! ### Texts -/

namespace Amount

/-- The text is a run of digits of the number, perhaps empty, with white space around it. -/
def Denotes (cs : List Char) (n : Nat) : Prop :=
  ∃ front ds back, (∀ c ∈ front, Text.isBlank c = true) ∧ (∀ c ∈ back, Text.isBlank c = true) ∧
    (∀ c ∈ ds, Text.isDigit c = true) ∧ cs = front ++ (ds ++ back) ∧ Text.value ds = n

/-- A text is read as the number that it denotes. -/
theorem parse_eq_ok_iff {s : String} {a : Amount} : parse s = .ok a ↔ Denotes s.toList a.val := by
  rw [parse_eq_ok]
  constructor
  · rintro ⟨hdigits, hvalue⟩
    obtain ⟨front, back, hfront, hback, hs⟩ := Text.exists_eq_trim s.toList
    exact ⟨front, _, back, hfront, hback, hdigits, hs, hvalue⟩
  · rintro ⟨front, ds, back, hfront, hback, hdigits, hs, hvalue⟩
    have htrim : Text.trim s.toList = ds :=
      (Text.trim_eq_iff hdigits).2 ⟨front, back, hfront, hback, hs⟩
    rw [htrim]
    exact ⟨hdigits, hvalue⟩

/-- The text of an amount that was read has the digits that were read, but for leading zeros. -/
theorem toText_of_parse {s : String} {a : Amount} (h : parse s = .ok a) :
    a.toText.toList = Text.withoutZeros (Text.trim s.toList) := by
  obtain ⟨hdigits, hvalue⟩ := parse_eq_ok.1 h
  rw [toText, String.toList_ofList, ← hvalue, Text.digits_value hdigits]

end Amount

/-! ### JSON -/

namespace Json

/-- The JSON value spells the amount: a text that is read as it, or its number where 64 bits hold it. -/
inductive SpellsAmount (a : Amount) : List Char → Prop where
  | text {cs : List Char} {s : String} (hcs : Quotes cs s.toList) (hs : Amount.parse s = .ok a) :
      SpellsAmount a ('"' :: (cs ++ ['"']))
  | number (ha : a.val < UInt64.size) : SpellsAmount a (Text.digits a.val)

theorem exists_blanks (cs : List Char) : ∃ front, Blanks front ∧ cs = front ++ skipBlank cs :=
  ⟨cs.takeWhile isBlank, fun _ => List.mem_takeWhile_imp, List.takeWhile_append_dropWhile.symm⟩

namespace Format

variable {α : Type}

/-- A whole text is read when only blanks follow the value. -/
theorem decode_eq_ok {f : Format α} {s : String} {a : α} :
    f.decode s = .ok a ↔ ∃ rest, f.read s.toList = .ok (a, rest) ∧ Blanks rest := by
  have hblanks : ∀ rest, skipBlank rest = [] ↔ Blanks rest := fun rest => List.dropWhile_eq_nil_iff
  rw [decode, decodeChars]
  cases f.read s.toList with
  | error e => exact ⟨nofun, nofun⟩
  | ok p =>
      obtain ⟨b, rest⟩ := p
      dsimp only [bind, Except.bind]
      constructor
      · intro h
        split at h
        · rename_i hnil
          cases h
          exact ⟨rest, rfl, (hblanks rest).1 hnil⟩
        · cases h
      · rintro ⟨rest, hsame, hrest⟩
        cases hsame
        rw [(hblanks rest).2 hrest]
        rfl

/-- **A text of JSON is read as the text that it means**, and refused for the same reason. -/
theorem read_amount_text {front cs rest : List Char} {s : String} (hfront : Blanks front)
    (hcs : Quotes cs s.toList) :
    amount.read (front ++ '"' :: (cs ++ '"' :: rest)) =
      match Amount.parse s with
      | .ok a => .ok (a, rest)
      | .error e => .error ((Problem.amount e).at rest) := by
  have hread : readText (cs ++ '"' :: rest) = .ok (s, rest) := readText_eq_ok.2 ⟨cs, rfl, hcs⟩
  dsimp only [amount]
  rw [skipBlank_append hfront]
  show (readText (cs ++ '"' :: rest) >>= _) = _
  rw [hread]
  rfl

/-- **A number of JSON is the amount.** -/
theorem read_amount_number {front rest : List Char} {a : Amount} (hfront : Blanks front)
    (hrest : Ends rest) (ha : a.val < UInt64.size) :
    amount.read (front ++ (Text.digits a.val ++ rest)) = .ok (a, rest) := by
  have hread := readLiteral_digits ha hrest
  cases hdigits : Text.digits a.val with
  | nil => exact absurd hdigits (Text.digits_ne_nil _)
  | cons d ds =>
      have hd : Text.isDigit d = true :=
        Text.isDigit_of_mem_digits (n := a.val) (hdigits ▸ List.mem_cons_self)
      rw [hdigits, List.cons_append] at hread
      dsimp only [amount]
      rw [skipBlank_append hfront, List.cons_append, skipBlank_cons (isBlank_of_isDigit hd)]
      split
      · rename_i hnil
        cases hnil
      · rename_i hcons
        cases hcons
        cases hd
      · rename_i hcons
        cases hcons
        cases hd
      · rename_i hcons
        cases hcons
        rw [if_pos hd, hread]
        dsimp only [bind, Except.bind, amountOfLiteral]
        rw [Amount.ofNat?_val]

theorem natural_of_amountOfLiteral {l : Literal} {rest after : List Char} {a : Amount}
    (h : amountOfLiteral l rest = .ok (a, after)) : l = .natural a.val ∧ after = rest := by
  cases l with
  | natural n =>
      dsimp only [amountOfLiteral] at h
      split at h
      · rename_i b hb
        cases h
        exact ⟨congrArg Literal.natural (Amount.ofNat?_eq_some.1 hb), rfl⟩
      · cases h
  | negative n | float x => cases h

/-- A number is an amount without a sign only. -/
theorem digits_of_amountOfLiteral {positive : Bool} {cs rest : List Char} {a : Amount}
    (h : (readLiteral positive cs >>= fun (l, r) => amountOfLiteral l r) = .ok (a, rest)) :
    positive = true ∧ a.val < UInt64.size ∧ cs = Text.digits a.val ++ rest := by
  obtain ⟨⟨l, r⟩, hread, hamount⟩ := Except.bind_eq_ok.1 h
  obtain ⟨rfl, rfl⟩ := natural_of_amountOfLiteral hamount
  obtain ⟨hpositive, hlt, hcs, -⟩ := eq_digits_of_readLiteral hread
  exact ⟨hpositive, hlt, hcs⟩

/-- **Nothing else is read as an amount.** -/
theorem spellsAmount_of_read {cs rest : List Char} {a : Amount} (h : amount.read cs = .ok (a, rest)) :
    ∃ front value, Blanks front ∧ SpellsAmount a value ∧ cs = front ++ (value ++ rest) := by
  obtain ⟨front, hfront, hcs⟩ := exists_blanks cs
  suffices hvalue : ∃ value, SpellsAmount a value ∧ skipBlank cs = value ++ rest by
    obtain ⟨value, hspells, hskip⟩ := hvalue
    exact ⟨front, value, hfront, hspells, by rw [← hskip]; exact hcs⟩
  dsimp only [amount] at h
  generalize skipBlank cs = after at h
  split at h
  · cases h
  · rename_i r
    obtain ⟨⟨s, r'⟩, hread, h⟩ := Except.bind_eq_ok.1 h
    dsimp only at h
    split at h
    · rename_i b hs
      cases h
      obtain ⟨quoted, rfl, hquoted⟩ := readText_eq_ok.1 hread
      exact ⟨_, .text hquoted hs, by simp⟩
    · cases h
  · obtain ⟨hpositive, -⟩ := digits_of_amountOfLiteral h
    cases hpositive
  · split at h
    · obtain ⟨-, hlt, hdigits⟩ := digits_of_amountOfLiteral h
      exact ⟨_, .number hlt, hdigits⟩
    · cases h

/-- **A whole text is an amount in JSON** when it spells one, with blanks around it. -/
theorem decode_amount_eq_ok {s : String} {a : Amount} :
    amount.decode s = .ok a ↔ ∃ front value back, Blanks front ∧ Blanks back ∧ SpellsAmount a value ∧
      s.toList = front ++ (value ++ back) := by
  rw [decode_eq_ok]
  constructor
  · rintro ⟨back, hread, hback⟩
    obtain ⟨front, value, hfront, hvalue, hs⟩ := spellsAmount_of_read hread
    exact ⟨front, value, back, hfront, hback, hvalue, hs⟩
  · rintro ⟨front, value, back, hfront, hback, hvalue, hs⟩
    refine ⟨back, ?_, hback⟩
    rw [hs]
    cases hvalue with
    | text hcs hparse =>
        rw [List.cons_append, List.append_assoc, List.singleton_append, read_amount_text hfront hcs,
          hparse]
    | number ha => exact read_amount_number hfront hback.ends ha

end Format
end Json

/-! ### Bytes -/

namespace Binary

/-- The number with these bytes, greatest first. -/
def ofBigEndian (bs : Bytes) : Nat :=
  bs.foldl (fun n b => 256 * n + b.toNat) 0

theorem ofBigEndian_concat (bs : Bytes) (b : UInt8) :
    ofBigEndian (bs ++ [b]) = 256 * ofBigEndian bs + b.toNat := by
  rw [ofBigEndian, List.foldl_append]
  rfl

theorem ofLittleEndian_reverse (bs : Bytes) : ofLittleEndian bs.reverse = ofBigEndian bs := by
  induction bs using List.reverseRecOn with
  | nil => rfl
  | append_singleton bs b ih =>
      rw [List.reverse_concat, ofLittleEndian, ih, ofBigEndian_concat, Nat.add_comm]

theorem ofBigEndian_lt (bs : Bytes) : ofBigEndian bs < Nat.pow 256 bs.length := by
  induction bs using List.reverseRecOn with
  | nil => decide
  | append_singleton bs b ih =>
      have hlt : b.toNat < 256 := b.toNat_lt
      have hpow : Nat.pow 256 (bs ++ [b]).length = Nat.pow 256 bs.length * 256 := by
        rw [List.length_append]
        rfl
      rw [ofBigEndian_concat, hpow]
      omega

/-- **An amount is read from 32 bytes**, and is their number. -/
theorem Format.read_amount_eq_ok {bs rest : Bytes} {a : Amount} :
    amount.read bs = .ok (a, rest) ↔ ∃ bytes, bs = littleEndian 8 32 ++ (bytes ++ rest) ∧
      bytes.length = 32 ∧ ofBigEndian bytes = a.val := by
  have hclamp : ∀ bytes : Bytes, bytes.length = 32 →
      (Amount.clamp (ofLittleEndian bytes.reverse)).val = ofBigEndian bytes := by
    intro bytes hlength
    have hlt := ofBigEndian_lt bytes
    rw [hlength] at hlt
    rw [ofLittleEndian_reverse, Amount.val_clamp]
    exact Nat.min_eq_left (Nat.le_sub_one_of_lt hlt)
  dsimp only [amount]
  constructor
  · intro h
    obtain ⟨⟨n, after⟩, hlength, hbody⟩ := Except.bind_eq_ok.1 h
    obtain ⟨⟨bytes, after'⟩, htake, hamount⟩ := Except.bind_eq_ok.1 hbody
    dsimp only at htake hamount
    split at hamount
    · rename_i hn
      subst hn
      cases hamount
      obtain ⟨rfl, hbytes⟩ := take_eq_ok.1 htake
      exact ⟨bytes, eq_littleEndian_of_readNat hlength, hbytes, (hclamp bytes hbytes).symm⟩
    · cases hamount
  · rintro ⟨bytes, rfl, hbytes, hvalue⟩
    have htake : take 32 (bytes ++ rest) = .ok (bytes, rest) := take_eq_ok.2 ⟨rfl, hbytes⟩
    have hsame : Amount.clamp (ofLittleEndian bytes.reverse) = a :=
      Amount.ext ((hclamp bytes hbytes).trans hvalue)
    rw [readNat_littleEndian _ (by decide)]
    dsimp only [bind, Except.bind]
    rw [htake]
    dsimp only
    rw [if_pos rfl, hsame]

end Binary

/-! ### All routes -/

/-- **No amount is narrowed or misread.**  A text is read as the number that its digits denote, white space
around them or not, if that is an amount, and refused otherwise; the text of an amount has no superfluous
zeros and is read back, and for an amount that was read it has the digits that were read, but for leading
zeros.  JSON texts are read as what they mean, with the same result, numbers of 64 bits without a sign, a
fraction or an exponent as themselves, and no other value is read.  Bytes are read if they are 32, the
greatest first. -/
theorem Amount.exact_on_every_route :
    (∀ s a, parse s = .ok a ↔ Denotes s.toList a.val) ∧
    (∀ s, (∀ n < size, ¬Denotes s.toList n) → parse s = .error (.invalid s)) ∧
    (∀ a, Text.Canonical a.toText.toList ∧ Text.value a.toText.toList = a.val ∧ parse a.toText = .ok a) ∧
    (∀ s a, parse s = .ok a → a.toText.toList = Text.withoutZeros (Text.trim s.toList)) ∧
    (∀ front cs rest s, Json.Blanks front → Json.Quotes cs s.toList →
      Json.Format.amount.read (front ++ '"' :: (cs ++ '"' :: rest)) =
        match parse s with
        | .ok a => .ok (a, rest)
        | .error e => .error ((Json.Problem.amount e).at rest)) ∧
    (∀ s a, Json.Format.amount.decode s = .ok a ↔ ∃ front value back,
      Json.Blanks front ∧ Json.Blanks back ∧ Json.SpellsAmount a value ∧
        s.toList = front ++ (value ++ back)) ∧
    (∀ bs a rest, Binary.Format.amount.read bs = .ok (a, rest) ↔ ∃ bytes,
      bs = Binary.littleEndian 8 32 ++ (bytes ++ rest) ∧ bytes.length = 32 ∧
        Binary.ofBigEndian bytes = a.val) := by
  refine ⟨fun s a => parse_eq_ok_iff, fun s hnone => parse_eq_error fun a ha => ?_, fun a => ?_,
    fun s a => toText_of_parse, fun _ _ _ _ => Json.Format.read_amount_text,
    fun s a => Json.Format.decode_amount_eq_ok, fun _ _ _ => Binary.Format.read_amount_eq_ok⟩
  · exact hnone a.val a.lt (parse_eq_ok_iff.1 ha)
  · rw [toText, String.toList_ofList]
    exact ⟨Text.canonical_digits a.val, Text.value_digits a.val, parse_toText a⟩

/-- The largest amount with zeros in front and white space around, and the number after it; an escaped digit
of a JSON text, a JSON number, and 32 bytes. -/
theorem Amount.exact_on_every_route_largest :
    let largest := "\t000115792089237316195423570985008687907853269984665640564039457584007913129639935\u2003"
    let beyond := "115792089237316195423570985008687907853269984665640564039457584007913129639936"
    parse largest = .ok max ∧ parse max.toText = .ok max ∧
      max.toText.toList = Text.withoutZeros (Text.trim largest.toList) ∧
      parse beyond = .error (.invalid beyond) ∧
      Json.Format.amount.read " \"\\u0037\",".toList = .ok (ofUInt64 7, [',']) ∧
      Json.Format.amount.decode " 7 " = .ok (ofUInt64 7) ∧
      Binary.Format.amount.read (Binary.littleEndian 8 32 ++ (List.replicate 31 0 ++ [7])) =
        .ok (ofUInt64 7, []) := by
  intro largest beyond
  obtain ⟨hparse, hrefused, htext, hdigits, hquoted, hdecode, hbytes⟩ := exact_on_every_route
  have hlargest : parse largest = .ok max := (hparse _ _).2
    ⟨['\t'], Text.trim largest.toList, ['\u2003'], List.all_eq_true.1 rfl, List.all_eq_true.1 rfl,
      List.all_eq_true.1 (by decide +kernel), by decide +kernel, by decide +kernel⟩
  have hbeyond : ∀ a, parse beyond ≠ .ok a := by
    intro a ha
    have hvalue := (parse_eq_ok.1 ha).2
    have hlt := a.lt
    have hsize : Text.value (Text.trim beyond.toList) = size := by decide +kernel
    omega
  refine ⟨hlargest, (htext max).2.2, hdigits _ _ hlargest, hrefused _ fun n hn hd => ?_, ?_, ?_, ?_⟩
  · exact hbeyond ⟨n, hn⟩ ((hparse _ _).2 hd)
  · exact hquoted [' '] ['\\', 'u', '0', '0', '3', '7'] [','] "7" Json.blanks_space
      (.unit (n := 55) rfl (by decide) .nil)
  · exact (hdecode _ _).2 ⟨[' '], ['7'], [' '], Json.blanks_space, Json.blanks_space,
      .number (by decide), rfl⟩
  · exact (hbytes _ _ _).2 ⟨List.replicate 31 0 ++ [7], rfl, rfl, rfl⟩

end WatchWallet
