import WatchWallet.Checkpoint
import WatchWallet.Proofs.Amount.Basic
import WatchWallet.Proofs.Instant.Reader
import WatchWallet.Proofs.Json.Spelling

/-!
# Json — Lossless

What spells a written value is read back as that value (`Format.Lossless`), so it is read back from both of
its layouts.  There is one lemma for each way to put formats together.  A list is read item by item
(`readItems_spelled`), a record member by member: `Members.fill` is what is known of it after some of them,
and `readSlots_spelled` goes on from there to the closing bracket.  So a record of lossless members with
names of their own is lossless (`Members.lossless_format`).
-/

namespace WatchWallet.Json

namespace Format

variable {α : Type}

/-- Every text that spells a written value is read back, whatever follows it. -/
def Lossless (f : Format α) : Prop :=
  ∀ a {b cs rest}, Blanks b → Spells (f.write a) cs → Ends rest →
    f.read (b ++ (cs ++ rest)) = .ok (a, rest)

/-- A value is read back from every text that spells it. -/
theorem Lossless.decode_spelled {f : Format α} (hf : f.Lossless) {a : α} {cs : List Char}
    (hcs : Spells (f.write a) cs) : f.decode (String.ofList cs) = .ok a := by
  have hends : Ends [] := fun c hc => absurd hc (Option.not_mem_none c)
  have hread := hf a blanks_nil hcs hends
  rw [List.nil_append, List.append_nil] at hread
  have hdecode : f.decodeChars cs = .ok a := by
    unfold decodeChars
    rw [hread]
    rfl
  rw [decode, String.toList_ofList, hdecode]
  rfl

/-- A value is read back from the text of its layout. -/
theorem Lossless.decode_pretty {f : Format α} (hf : f.Lossless) (a : α) :
    f.decode (String.ofList (f.write a).pretty) = .ok a :=
  hf.decode_spelled (spells_layout 0 (f.write a))

/-- A value is read back from its text on one line. -/
theorem Lossless.decode_encode {f : Format α} (hf : f.Lossless) (a : α) :
    f.decode (f.encode a) = .ok a :=
  hf.decode_spelled (spells_compact (f.write a))

/-- Every value is read back from its text, and what is read from any text is read again from its own. -/
structure ReadsBack (f : Format α) : Prop where
  decode_encode : ∀ a, f.decode (f.encode a) = .ok a
  decode_again : ∀ {s a}, f.decode s = .ok a → f.decode (f.encode a) = .ok a

theorem Lossless.readsBack {f : Format α} (hf : f.Lossless) : f.ReadsBack :=
  ⟨hf.decode_encode, fun _ => hf.decode_encode _⟩

theorem lossless_textNamed (name : String) : (textNamed name).Lossless := by
  intro s b cs rest hb hcs _
  cases hcs with
  | text =>
      dsimp only [textNamed]
      rw [skipBlank_append hb]
      show readText (s.toList.flatMap escapeChar ++ ['"'] ++ rest) = _
      rw [List.append_assoc]
      exact readText_escape s rest

theorem lossless_text : text.Lossless :=
  lossless_textNamed _

theorem lossless_path : path.Lossless :=
  lossless_textNamed _

theorem lossless_instant : instant.Lossless := by
  intro t b cs rest hb hcs _
  cases hcs with
  | text =>
      dsimp only [instant]
      rw [skipBlank_append hb]
      show (readText (t.toText.toList.flatMap escapeChar ++ ['"'] ++ rest) >>= _) = _
      rw [List.append_assoc, List.singleton_append, readText_escape]
      dsimp only [bind, Except.bind]
      rw [Instant.parse_toText]

theorem readBelow_digits {bound n : Nat} {name : String} {b rest : List Char} (hn : n < bound)
    (hbound : bound ≤ UInt64.size) (hb : Blanks b) (hrest : Ends rest) :
    readBelow bound name (b ++ (Text.digits n ++ rest)) = .ok (n, rest) := by
  have hliteral := readLiteral_digits (Nat.lt_of_lt_of_le hn hbound) hrest
  have hne := Text.digits_ne_nil n
  have hdigits : ∀ c ∈ Text.digits n, Text.isDigit c = true := fun c => Text.isDigit_of_mem_digits
  generalize Text.digits n = ds at hliteral hne hdigits
  cases ds with
  | nil => exact absurd rfl hne
  | cons d ds =>
      have hd := hdigits d List.mem_cons_self
      have hskip := skipBlank_cons (isBlank_of_isDigit hd) (ds ++ rest)
      have hminus : d ≠ '-' := by
        rintro rfl
        cases hd
      rw [List.cons_append] at hliteral ⊢
      unfold readBelow
      rw [skipBlank_append hb, hskip]
      split
      · rename_i hnil
        cases hnil
      · rename_i hcons
        exact absurd (List.cons.inj hcons).1 hminus
      · rename_i hcons
        obtain ⟨rfl, rfl⟩ := List.cons.inj hcons
        rw [if_pos hd, hliteral]
        exact if_pos hn

theorem lossless_uint32 : uint32.Lossless := by
  intro n b cs rest hb hcs hrest
  cases hcs with
  | number =>
      dsimp only [uint32]
      rw [readBelow_digits n.toNat_lt (by decide) hb hrest, Except.map, UInt32.ofNat_toNat]

theorem lossless_uint64 : uint64.Lossless := by
  intro n b cs rest hb hcs hrest
  cases hcs with
  | number =>
      dsimp only [uint64]
      rw [readBelow_digits n.toNat_lt (Nat.le_refl _) hb hrest, Except.map, UInt64.ofNat_toNat]

theorem lossless_bool : bool.Lossless := by
  intro v b cs rest hb hcs _
  cases hcs with
  | true | false =>
      dsimp only [bool]
      rw [skipBlank_append hb]
      rfl

theorem lossless_amount : amount.Lossless := by
  intro a b cs rest hb hcs _
  cases hcs with
  | text =>
      dsimp only [amount]
      rw [skipBlank_append hb]
      show (readText (a.toText.toList.flatMap escapeChar ++ ['"'] ++ rest) >>= _) = _
      rw [List.append_assoc, List.singleton_append, readText_escape]
      dsimp only [bind, Except.bind]
      rw [Amount.parse_toText]

/-- A name is read back when it is the name of its constructor alone. -/
theorem lossless_variants [BEq α] {known : List (String × α)}
    (hknown : ∀ a, known.lookup (((known.find? fun (_, b) => a == b).map Prod.fst).getD "") = some a) :
    (variants known).Lossless := by
  intro a b cs rest hb hcs _
  cases hcs with
  | text =>
      dsimp only [variants]
      rw [skipBlank_append hb]
      show (readText ((String.toList _).flatMap escapeChar ++ ['"'] ++ rest) >>= _) = _
      rw [List.append_assoc, List.singleton_append, readText_escape]
      show variants.lookUp known _ rest = _
      rw [variants.lookUp, hknown]

/-- No value is written as `null`. -/
def NeverNull (f : Format α) : Prop :=
  ∀ a, f.write a ≠ .null

theorem neverNull_text : text.NeverNull :=
  nofun

theorem neverNull_uint32 : uint32.NeverNull :=
  nofun

theorem neverNull_amount : amount.NeverNull :=
  nofun

/-- A value is told from none by its first character. -/
theorem Lossless.option {f : Format α} (hf : f.Lossless) (hnull : f.NeverNull) : f.option.Lossless := by
  intro o b cs rest hb hcs hrest
  cases o with
  | none =>
      cases hcs with
      | null =>
          dsimp only [Format.option]
          rw [skipBlank_append hb]
          rfl
  | some a =>
      obtain ⟨c, r, rfl, hblank, -, hn⟩ := hcs.exists_cons
      have hread := hf a blanks_nil hcs hrest
      dsimp only [Format.option]
      rw [skipBlank_append hb]
      rw [List.nil_append, List.cons_append] at hread
      rw [List.cons_append, skipBlank_cons hblank]
      split
      · rename_i hnil
        cases hnil
      · rename_i hcons
        exact absurd (hn (List.cons.inj hcons).1) (hnull a)
      · rw [hread]
        rfl

/-! ### Lists -/

/-- Where the next item of a list starts. -/
theorem nextItem_cons (first : Bool) {b : List Char} (hb : Blanks b) {c : Char} (r : List Char)
    (hc : isBlank c = false) (hclose : c ≠ ']') :
    nextItem first (separator first ++ (b ++ c :: r)) = .ok (some (c :: r)) := by
  have hitem : skipBlank (b ++ c :: r) = c :: r := by
    rw [skipBlank_append hb, skipBlank_cons hc]
  unfold nextItem
  cases first with
  | true => simp [separator, hitem]
  | false =>
      have hcomma : skipBlank (',' :: (b ++ c :: r)) = ',' :: (b ++ c :: r) := rfl
      rw [separator, if_neg Bool.false_ne_true, List.singleton_append, hcomma]
      simp [hitem, hclose]

theorem nextItem_close (first : Bool) {b : List Char} (hb : Blanks b) (r : List Char) :
    nextItem first (b ++ ']' :: r) = .ok none := by
  unfold nextItem
  rw [skipBlank_append hb]
  rfl

theorem ends_of_spellsItems {items : List Json} {cs : List Char} (h : SpellsItems false items cs)
    (rest : List Char) : Ends (cs ++ rest) := by
  cases h with
  | nil hb =>
      rw [List.append_assoc]
      exact ends_blanks hb (by decide) rest
  | cons _ _ _ =>
      intro c hc
      obtain rfl := Option.some.inj hc
      decide

/-- The rest of a list is read with its bracket. -/
theorem readItems_spelled {f : Format α} (hf : f.Lossless) {as : List α} {fuel : Nat} {first : Bool}
    {cs : List Char} (rest : List Char) (hcs : SpellsItems first (as.map f.write) cs)
    (hfuel : cs.length ≤ fuel) : readItems f.read first (cs ++ rest) fuel = .ok (as, rest) := by
  induction as generalizing fuel first cs with
  | nil =>
      cases hcs with
      | @nil _ b hb =>
          rw [List.append_assoc, List.singleton_append]
          cases fuel with
          | zero => simp at hfuel
          | succ fuel =>
              have hend : endList (b ++ ']' :: rest) = .ok rest := by
                unfold endList
                rw [skipBlank_append hb]
                rfl
              rw [readItems, nextItem_close first hb]
              dsimp only [bind, Except.bind]
              rw [hend]
              rfl
  | cons a as ih =>
      cases hcs with
      | @cons _ _ _ b v r hb hv hr =>
          -- an item takes a character at least, so the length is fuel enough
          cases fuel with
          | zero =>
              obtain ⟨c, v', rfl, -⟩ := hv.exists_cons
              simp at hfuel
          | succ fuel =>
              have hread := hf a blanks_nil hv (ends_of_spellsItems hr rest)
              obtain ⟨c, v', rfl, hblank, hclose, -⟩ := hv.exists_cons
              have hfuel' : r.length ≤ fuel := by
                simp only [List.length_append, List.length_cons] at hfuel
                omega
              simp only [List.append_assoc, List.cons_append, List.nil_append] at hread ⊢
              rw [readItems, nextItem_cons first hb _ hblank hclose]
              dsimp only [bind, Except.bind]
              rw [hread]
              dsimp only
              rw [ih hr hfuel']
              rfl

theorem Lossless.list {f : Format α} (hf : f.Lossless) : f.list.Lossless := by
  intro as b cs rest hb hcs _
  cases hcs with
  | @array _ cs h =>
      have hfuel : cs.length ≤ (cs ++ rest).length + 1 := by
        rw [List.length_append]
        omega
      dsimp only [Format.list]
      rw [skipBlank_append hb]
      exact readItems_spelled hf rest h hfuel

end Format

namespace Members

/-- The names of the members. -/
def keys : {τ : Type} → Members τ → List String
  | _, nil => []
  | _, cons head tail => head.key :: tail.keys

/-- No member is meant by the name of a later one. -/
def Distinct : {τ : Type} → Members τ → Prop
  | _, nil => True
  | _, cons head tail => (∀ key ∈ tail.keys, head.isNamed key = false) ∧ tail.Distinct

instance decidableDistinct : {τ : Type} → (ms : Members τ) → Decidable ms.Distinct
  | _, nil => isTrue trivial
  | _, cons head tail =>
    have := decidableDistinct tail
    inferInstanceAs (Decidable ((∀ key ∈ tail.keys, head.isNamed key = false) ∧ tail.Distinct))

/-- The value of every member is read back. -/
def Lossless : {τ : Type} → Members τ → Prop
  | _, nil => True
  | _, cons head tail => head.format.Lossless ∧ tail.Lossless

/-- What is known of a record after its first members. -/
def fill : {τ : Type} → (ms : Members τ) → τ → Nat → ms.Slots
  | _, nil, _, _ => ()
  | _, cons _ tail, _, 0 => (none, tail.vacant)
  | _, cons _ tail, (a, as), k + 1 => (some a, tail.fill as k)

theorem fill_zero : ∀ {τ : Type} (ms : Members τ) (as : τ), ms.fill as 0 = ms.vacant
  | _, nil, _ => rfl
  | _, cons _ _, _ => rfl

/-- Nothing is missing of a record after all of its members. -/
theorem complete_fill : ∀ {τ : Type} (ms : Members τ) (as : τ),
    ms.complete (ms.fill as ms.size) = .ok as
  | _, nil, _ => rfl
  | _, cons head tail, (a, as) => by
      show (do
        let b ← Except.ok a
        return (b, ← tail.complete (tail.fill as tail.size))) = _
      rw [complete_fill tail as]
      rfl

theorem map_fst_write : ∀ {τ : Type} (ms : Members τ) (as : τ),
    (ms.write as).map Prod.fst = ms.keys
  | _, nil, _ => rfl
  | _, cons _ tail, (_, as) => congrArg _ (map_fst_write tail as)

/-- The next member is read into its slot. -/
theorem take?_fill {τ : Type} {ms : Members τ} (hdistinct : ms.Distinct) (hms : ms.Lossless) {as : τ}
    {k : Nat} {key : String} {v : Json} {b cs rest : List Char} (hk : (ms.write as)[k]? = some (key, v))
    (hb : Blanks b) (hcs : Spells v cs) (hrest : Ends rest) :
    ms.take? key (':' :: (b ++ (cs ++ rest))) (ms.fill as k) = some (.ok (ms.fill as (k + 1), rest)) := by
  -- the members before this one have other names and leave it to the rest
  induction ms generalizing k with
  | nil => cases hk
  | cons head tail ih =>
      obtain ⟨a, as⟩ := as
      cases k with
      | zero =>
          obtain ⟨rfl, rfl⟩ := Prod.mk.inj (Option.some.inj hk)
          have hnamed : head.isNamed head.key = true := by simp [Member.isNamed]
          have hcolon : readColon (':' :: (b ++ (cs ++ rest))) = .ok (b ++ (cs ++ rest)) := rfl
          have hread := hms.1 a hb hcs hrest
          show (if head.isNamed head.key = true then _ else _) = _
          rw [if_pos hnamed]
          rw [hcolon]
          dsimp only [bind, Except.bind]
          rw [hread]
          show some (Except.ok ((some a, tail.vacant), rest)) =
            some (Except.ok ((some a, tail.fill as 0), rest))
          rw [fill_zero]
      | succ k =>
          have hk : (tail.write as)[k]? = some (key, v) := hk
          have hmem : key ∈ tail.keys := by
            rw [← map_fst_write tail as]
            exact List.mem_map_of_mem (List.mem_of_getElem? hk)
          have hother : ¬head.isNamed key = true := by
            rw [hdistinct.1 key hmem]
            exact Bool.false_ne_true
          have htail := ih hdistinct.2 hms.2 hk
          show (if head.isNamed key = true then _ else _) = _
          rw [if_neg hother]
          show (tail.take? key _ (tail.fill as k)).map _ = _
          rw [htail]
          rfl

theorem nextName_quote (first : Bool) {b : List Char} (hb : Blanks b) (r : List Char) :
    nextName first (separator first ++ (b ++ '"' :: r)) = .ok (some r) := by
  have hquote : skipBlank (b ++ '"' :: r) = '"' :: r := by
    rw [skipBlank_append hb]
    rfl
  unfold nextName
  cases first with
  | true =>
      rw [separator, if_pos rfl, List.nil_append, hquote]
      rfl
  | false =>
      have hcomma : skipBlank (',' :: (b ++ '"' :: r)) = ',' :: (b ++ '"' :: r) := rfl
      rw [separator, if_neg Bool.false_ne_true, List.singleton_append, hcomma]
      simp [hquote]

theorem nextName_close (first : Bool) {b : List Char} (hb : Blanks b) (r : List Char) :
    nextName first (b ++ '\x7d' :: r) = .ok none := by
  unfold nextName
  rw [skipBlank_append hb]
  rfl

theorem length_write {τ : Type} (ms : Members τ) (as : τ) : (ms.write as).length = ms.size := by
  induction ms with
  | nil => rfl
  | cons _ tail ih => exact congrArg Nat.succ (ih as.2)

theorem ends_of_spellsMembers {members : List (String × Json)} {cs : List Char}
    (h : SpellsMembers false members cs) (rest : List Char) : Ends (cs ++ rest) := by
  cases h with
  | nil hb =>
      rw [List.append_assoc]
      exact ends_blanks hb (by decide) rest
  | cons _ _ _ _ =>
      intro c hc
      obtain rfl := Option.some.inj hc
      decide

/-- The rest of an object is read up to its bracket. -/
theorem readSlots_spelled {τ : Type} {ms : Members τ} (hdistinct : ms.Distinct) (hms : ms.Lossless)
    {as : τ} {k fuel : Nat} {first : Bool} {cs : List Char} (rest : List Char)
    (hcs : SpellsMembers first ((ms.write as).drop k) cs) (hk : k ≤ ms.size)
    (hfuel : cs.length ≤ fuel) :
    ∃ b, Blanks b ∧ ms.readSlots first (ms.fill as k) (cs ++ rest) fuel =
      .ok (ms.fill as ms.size, b ++ '\x7d' :: rest) := by
  generalize hmembers : (ms.write as).drop k = members at hcs
  induction members generalizing k fuel first cs with
  | nil =>
      have hle := List.drop_eq_nil_iff.1 hmembers
      rw [length_write] at hle
      obtain rfl := Nat.le_antisymm hk hle
      cases hcs with
      | @nil _ b hb =>
          refine ⟨b, hb, ?_⟩
          rw [List.append_assoc, List.singleton_append]
          cases fuel with
          | zero => simp at hfuel
          | succ fuel =>
              rw [readSlots, nextName_close first hb]
              rfl
  | cons m members ih =>
      have hget : (ms.write as)[k]? = some m := by
        rw [← List.head?_drop, hmembers]
        rfl
      have htail : (ms.write as).drop (k + 1) = members := by
        rw [← List.tail_drop, hmembers]
        rfl
      have hlt : k < ms.size := by
        rw [← length_write ms as]
        exact (List.getElem?_eq_some_iff.1 hget).1
      cases hcs with
      | @cons _ key v _ b b' cs rest' hb hb' hv hrest' =>
          cases fuel with
          | zero => simp [escape] at hfuel
          | succ fuel =>
              have hfuel' : rest'.length ≤ fuel := by
                simp only [List.length_append, List.length_cons] at hfuel
                omega
              obtain ⟨b'', hb'', hread⟩ := ih hlt hfuel' htail hrest'
              refine ⟨b'', hb'', ?_⟩
              have hname : readText (key.toList.flatMap escapeChar ++
                  '"' :: ':' :: (b' ++ (cs ++ (rest' ++ rest)))) =
                  .ok (key, ':' :: (b' ++ (cs ++ (rest' ++ rest)))) := readText_escape key _
              have hslot := take?_fill hdistinct hms hget hb' hv (ends_of_spellsMembers hrest' rest)
              simp only [List.append_assoc, List.cons_append, escape, List.nil_append]
              rw [readSlots, nextName_quote first hb]
              dsimp only [bind, Except.bind]
              rw [hname]
              dsimp only
              rw [hslot]
              exact hread

theorem neverNull_format {τ ρ : Type} {ms : Members τ} {name : String} {build : τ → ρ} {parts : ρ → τ} :
    (ms.format name build parts).NeverNull :=
  nofun

/-- **A record of lossless members with names of their own is lossless.** -/
theorem lossless_format {τ ρ : Type} {ms : Members τ} {name : String} {build : τ → ρ} {parts : ρ → τ}
    (hms : ms.Lossless) (hdistinct : ms.Distinct) (hparts : ∀ a, build (parts a) = a) :
    (ms.format name build parts).Lossless := by
  intro a b cs rest hb hcs _
  cases hcs with
  | @object _ cs h =>
      have hfuel : cs.length ≤ (cs ++ rest).length + 1 := by
        rw [List.length_append]
        omega
      obtain ⟨b', hb', hread⟩ := readSlots_spelled hdistinct hms (k := 0) rest h (Nat.zero_le _) hfuel
      have hclose : afterClose '\x7d' (b' ++ '\x7d' :: rest) = rest := by
        unfold afterClose
        rw [skipBlank_append hb']
        rfl
      rw [fill_zero] at hread
      dsimp only [format]
      rw [skipBlank_append hb]
      show (ms.readSlots true ms.vacant (cs ++ rest) ((cs ++ rest).length + 1) >>= _) = _
      rw [hread]
      dsimp only [bind, Except.bind]
      rw [complete_fill, hclose]
      dsimp only
      rw [hparts]

end Members

end WatchWallet.Json

namespace WatchWallet

/-- **Checkpoints are read back from their texts.** -/
theorem Checkpoint.lossless_json : Checkpoint.json.Lossless :=
  Json.Members.lossless_format
    ⟨Json.Format.lossless_uint32, Json.Format.lossless_text, Json.Format.lossless_instant, trivial⟩
    (by decide) fun _ => rfl

end WatchWallet
