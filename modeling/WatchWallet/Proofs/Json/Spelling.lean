import Mathlib.Tactic.Common
import WatchWallet.Json.Format
import WatchWallet.Proofs.Text.Digits

/-!
# Json — Spelling

A text spells a JSON value (`Spells`) when it is that value up to the blanks between its parts.  Both
layouts are such texts (`spells_compact`, `spells_layout`).  Its first character tells a value from the
end of a list and from `null` (`Spells.exists_cons`), and the scanners read what is spelled: texts between
quotes (`readText_escape`) and natural numbers (`readLiteral_digits`).
-/

namespace WatchWallet.Json

/-! ### Texts -/

/-- A control character is written with four digits, and they are read as its number. -/
theorem hexDigits_control : ∀ n : Fin 32, Text.padLeft 4 (Text.hexDigits n) =
      ['0', '0', Nat.digitChar (n / 16), Nat.digitChar (n % 16)] ∧
    hexUnit? '0' '0' (Nat.digitChar (n / 16)) (Nat.digitChar (n % 16)) = some n.val := by
  decide

theorem readChars_control {c : Char} (hc : c.toNat < 0x20) (cs : List Char) :
    readChars (['\\', 'u'] ++ Text.padLeft 4 (Text.hexDigits c.toNat) ++ cs) =
      (readChars cs).map fun (ds, rest) => (c :: ds, rest) := by
  obtain ⟨hdigits, hunit⟩ := hexDigits_control ⟨c.toNat, hc⟩
  dsimp only at hdigits hunit
  rw [hdigits]
  show readChars ('\\' :: 'u' :: '0' :: '0' :: _ :: _ :: cs) = _
  rw [readChars, hunit]
  dsimp only
  rw [if_neg (by omega), if_neg (by omega), Char.ofNat_toNat]

/-- A character is read back however it was escaped. -/
theorem readChars_escapeChar (c : Char) (cs : List Char) :
    readChars (escapeChar c ++ cs) = (readChars cs).map fun (ds, rest) => (c :: ds, rest) := by
  unfold escapeChar
  split
  case h_8 hquote hslash _ _ _ _ _ =>
    split
    · rename_i hc
      exact readChars_control hc cs
    · rename_i hc
      show readChars (c :: cs) = _
      rw [readChars, if_neg hc]
      · exact hquote
      · exact fun h => (hslash h).elim
      · exact fun _ _ _ _ _ h => (hslash h).elim
      · exact fun _ h => (hslash h).elim
      · exact fun _ _ h => (hslash h).elim
  all_goals rfl

/-- **A text between quotes is read back.** -/
theorem readText_escape (s : String) (rest : List Char) :
    readText (s.toList.flatMap escapeChar ++ '"' :: rest) = .ok (s, rest) := by
  have hchars : ∀ cs, readChars (cs.flatMap escapeChar ++ '"' :: rest) = .ok (cs, rest) := by
    intro cs
    induction cs with
    | nil => rfl
    | cons c cs ih =>
        rw [List.flatMap_cons, List.append_assoc, readChars_escapeChar, ih]
        rfl
  rw [readText, hchars]
  show Except.ok (String.ofList s.toList, rest) = _
  rw [String.ofList_toList]

/-! ### Numbers -/

/-- No number goes on into this text. -/
def Ends (cs : List Char) : Prop :=
  ∀ c ∈ cs.head?, Text.isDigit c = false ∧ c ≠ '.' ∧ c ≠ 'e' ∧ c ≠ 'E'

theorem Ends.stops {cs : List Char} (h : Ends cs) : Text.Stops cs :=
  fun c hc => (h c hc).1

/-- The digits of a number that stays below the bound are all taken. -/
theorem gather_eq {bound n : Nat} {ds : List Char}
    (h : ds.foldl (fun n c => 10 * n + Text.digitValue c) n < bound) :
    gather bound n ds = (ds.foldl (fun n c => 10 * n + Text.digitValue c) n, ds.length) := by
  have hle : ∀ (ds : List Char) n, n ≤ ds.foldl (fun n c => 10 * n + Text.digitValue c) n := by
    intro ds
    induction ds with
    | nil => exact fun n => Nat.le_refl n
    | cons d ds ih => exact fun n => Nat.le_trans (by omega) (ih (10 * n + Text.digitValue d))
  induction ds generalizing n with
  | nil => rfl
  | cons d ds ih =>
      rw [List.foldl_cons] at h
      rw [gather, if_pos (Nat.lt_of_le_of_lt (hle ds _) h), ih h]
      rfl

/-- **A natural number is read back from its digits.** -/
theorem readLiteral_digits {n : Nat} {rest : List Char} (hn : n < UInt64.size) (hrest : Ends rest) :
    readLiteral true (Text.digits n ++ rest) = .ok (.natural n, rest) := by
  have hrun : (Text.digits n ++ rest).takeWhile Text.isDigit = Text.digits n :=
    Text.takeWhile_run (fun c => Text.isDigit_of_mem_digits) hrest.stops
  have hgather : gather UInt64.size 0 (Text.digits n) = (n, (Text.digits n).length) := by
    have hvalue : (Text.digits n).foldl (fun n c => 10 * n + Text.digitValue c) 0 = n :=
      Text.value_digits n
    rw [gather_eq (by rw [hvalue]; exact hn), hvalue]
  have hzero : ∀ r, Text.digits n = '0' :: r → r = [] := fun r => Text.eq_nil_of_digits_eq
  have hdrop : (Text.digits n ++ rest).drop (Text.digits n).length = rest := List.drop_left
  have hne := Text.digits_ne_nil n
  generalize Text.digits n = ds at hrun hgather hzero hdrop hne ⊢
  cases ds with
  | nil => exact absurd rfl hne
  | cons d ds =>
      have hlone : ¬(d = '0' ∧ 1 < (d :: ds).length) := by
        rintro ⟨rfl, hlt⟩
        rw [hzero ds rfl] at hlt
        exact absurd hlt (Nat.lt_irrefl 1)
      rw [List.cons_append] at hrun hdrop ⊢
      unfold readLiteral
      dsimp only
      rw [hrun, if_neg (List.cons_ne_nil d ds), if_neg hlone, hgather, hdrop]
      dsimp only
      split
      · exact absurd rfl (hrest _ rfl).2.1
      · exact absurd rfl (hrest _ rfl).2.2.1
      · exact absurd rfl (hrest _ rfl).2.2.2
      · rw [if_pos (Nat.sub_self _)]
        rfl

/-! ### Values -/

/-- The text is made of blanks. -/
def Blanks (b : List Char) : Prop :=
  ∀ c ∈ b, isBlank c = true

theorem skipBlank_append {b : List Char} (hb : Blanks b) (cs : List Char) :
    skipBlank (b ++ cs) = skipBlank cs :=
  List.dropWhile_append_of_pos hb

theorem skipBlank_cons {c : Char} (hc : isBlank c = false) (cs : List Char) :
    skipBlank (c :: cs) = c :: cs :=
  List.dropWhile_cons_of_neg (hc ▸ Bool.false_ne_true)

theorem isBlank_of_isDigit {c : Char} (h : Text.isDigit c = true) : isBlank c = false := by
  simp only [isBlank, Bool.or_eq_false_iff, beq_eq_false_iff_ne]
  refine ⟨⟨⟨?_, ?_⟩, ?_⟩, ?_⟩ <;> (rintro rfl; cases h)

/-- No number goes on into blanks. -/
theorem Blanks.ends {b : List Char} (hb : Blanks b) : Ends b := by
  intro c hc
  have hblank := hb c (List.mem_of_mem_head? hc)
  simp only [isBlank, Bool.or_eq_true, beq_iff_eq] at hblank
  rcases hblank with ((rfl | rfl) | rfl) | rfl <;> decide

/-- A number ends in front of a bracket, also with blanks between. -/
theorem ends_blanks {b : List Char} (hb : Blanks b) {close : Char}
    (hclose : Text.isDigit close = false ∧ close ≠ '.' ∧ close ≠ 'e' ∧ close ≠ 'E') (rest : List Char) :
    Ends (b ++ ([close] ++ rest)) := by
  intro c hc
  cases b with
  | nil =>
      obtain rfl := Option.some.inj hc
      exact hclose
  | cons d b => exact hb.ends c hc

/-- What stands in front of a part of a list or an object: a comma, unless the part is the first. -/
def separator (first : Bool) : List Char :=
  if first then [] else [',']

mutual

/-- The text spells the value. -/
inductive Spells : Json → List Char → Prop where
  | null : Spells .null ['n', 'u', 'l', 'l']
  | true : Spells (.bool true) ['t', 'r', 'u', 'e']
  | false : Spells (.bool false) ['f', 'a', 'l', 's', 'e']
  | number (n : Nat) : Spells (.number n) (Text.digits n)
  | text (s : String) : Spells (.text s) (escape s)
  | array {items : List Json} {cs : List Char} (h : SpellsItems .true items cs) :
      Spells (.array items) ('[' :: cs)
  | object {members : List (String × Json)} {cs : List Char} (h : SpellsMembers .true members cs) :
      Spells (.object members) ('\x7b' :: cs)

/-- The text spells items up to the closing bracket, the first of all or those after others. -/
inductive SpellsItems : Bool → List Json → List Char → Prop where
  | nil {first : Bool} {b : List Char} (hb : Blanks b) : SpellsItems first [] (b ++ [']'])
  | cons {first : Bool} {v : Json} {vs : List Json} {b cs rest : List Char} (hb : Blanks b)
      (hv : Spells v cs) (hvs : SpellsItems .false vs rest) :
      SpellsItems first (v :: vs) (separator first ++ (b ++ (cs ++ rest)))

/-- The text spells members up to the closing bracket, the first of all or those after others. -/
inductive SpellsMembers : Bool → List (String × Json) → List Char → Prop where
  | nil {first : Bool} {b : List Char} (hb : Blanks b) : SpellsMembers first [] (b ++ ['\x7d'])
  | cons {first : Bool} {k : String} {v : Json} {ms : List (String × Json)}
      {b b' cs rest : List Char} (hb : Blanks b) (hb' : Blanks b') (hv : Spells v cs)
      (hms : SpellsMembers .false ms rest) :
      SpellsMembers first ((k, v) :: ms)
        (separator first ++ (b ++ (escape k ++ ':' :: (b' ++ (cs ++ rest)))))

end

/-- A value starts with a character of its own: it is no blank and closes no list, and only `null` starts
as `null` does. -/
theorem Spells.exists_cons {v : Json} {cs : List Char} (h : Spells v cs) :
    ∃ c r, cs = c :: r ∧ isBlank c = .false ∧ c ≠ ']' ∧ (c = 'n' → v = .null) := by
  cases h with
  | null => exact ⟨_, _, rfl, rfl, by decide, fun _ => rfl⟩
  | number n =>
      cases hdigits : Text.digits n with
      | nil => exact absurd hdigits (Text.digits_ne_nil n)
      | cons d ds =>
          have hd : Text.isDigit d = .true :=
            Text.isDigit_of_mem_digits (n := n) (hdigits ▸ List.mem_cons_self)
          refine ⟨d, ds, rfl, isBlank_of_isDigit hd, ?_, ?_⟩
          · rintro rfl
            cases hd
          · rintro rfl
            cases hd
  | true | false | text | array | object => exact ⟨_, _, rfl, rfl, by decide, fun h => absurd h (by decide)⟩

theorem blanks_nil : Blanks [] :=
  fun _ hc => absurd hc List.not_mem_nil

theorem blanks_space : Blanks [' '] :=
  fun _ hc => List.mem_singleton.1 hc ▸ rfl

theorem blanks_newLine (depth : Nat) : Blanks (newLine depth) := by
  intro c hc
  rcases List.mem_cons.1 hc with rfl | hc
  · rfl
  · rw [List.eq_of_mem_replicate hc]
    rfl

mutual

/-- **The layout on one line spells the value.** -/
theorem spells_compact : ∀ v : Json, Spells v (compact v)
  | .null => .null
  | .bool true => .true
  | .bool false => .false
  | .number n => .number n
  | .text s => .text s
  | .array [] => .array (.nil blanks_nil)
  | .object [] => .object (.nil blanks_nil)
  | .array (v :: vs) => .array (spells_compactItems .true (v :: vs) (List.cons_ne_nil v vs))
  | .object (m :: ms) => .object (spells_compactMembers .true (m :: ms) (List.cons_ne_nil m ms))

theorem spells_compactItems (first : Bool) :
    ∀ vs : List Json, vs ≠ [] →
      SpellsItems first vs (separator first ++ (compactItems vs ++ [']']))
  | [], hne => absurd rfl hne
  | [v], _ => .cons (b := []) blanks_nil (spells_compact v) (.nil blanks_nil)
  | v :: w :: vs, _ => by
      rw [compactItems, List.append_assoc]
      exact .cons (b := []) blanks_nil (spells_compact v)
        (spells_compactItems .false (w :: vs) (List.cons_ne_nil w vs))

theorem spells_compactMembers (first : Bool) :
    ∀ ms : List (String × Json), ms ≠ [] →
      SpellsMembers first ms (separator first ++ (compactMembers ms ++ ['\x7d']))
  | [], hne => absurd rfl hne
  | [(k, v)], _ => by
      rw [compactMembers, List.append_assoc]
      exact .cons (b := []) blanks_nil blanks_nil (spells_compact v) (.nil blanks_nil)
  | (k, v) :: m :: ms, _ => by
      rw [compactMembers]
      simp only [List.append_assoc, List.cons_append]
      exact .cons (b := []) blanks_nil blanks_nil (spells_compact v)
        (spells_compactMembers .false (m :: ms) (List.cons_ne_nil m ms))

end

mutual

/-- **The layout over several lines spells the value.** -/
theorem spells_layout (depth : Nat) : ∀ v : Json, Spells v (layout depth v)
  | .null => .null
  | .bool true => .true
  | .bool false => .false
  | .number n => .number n
  | .text s => .text s
  | .array [] => .array (.nil blanks_nil)
  | .object [] => .object (.nil blanks_nil)
  | .array (v :: vs) => by
      rw [layout, List.cons_append, List.cons_append, List.append_assoc]
      exact .array (spells_layoutItems depth .true (v :: vs) (List.cons_ne_nil v vs))
  | .object (m :: ms) => by
      rw [layout, List.cons_append, List.cons_append, List.append_assoc]
      exact .object (spells_layoutMembers depth .true (m :: ms) (List.cons_ne_nil m ms))

theorem spells_layoutItems (depth : Nat) (first : Bool) :
    ∀ vs : List Json, vs ≠ [] →
      SpellsItems first vs (separator first ++ (layoutItems depth vs ++ (newLine depth ++ [']'])))
  | [], hne => absurd rfl hne
  | [v], _ => by
      rw [layoutItems, List.append_assoc]
      exact .cons (blanks_newLine _) (spells_layout (depth + 1) v) (.nil (blanks_newLine depth))
  | v :: w :: vs, _ => by
      rw [layoutItems, List.append_assoc, List.append_assoc]
      exact .cons (blanks_newLine _) (spells_layout (depth + 1) v)
        (spells_layoutItems depth .false (w :: vs) (List.cons_ne_nil w vs))

theorem spells_layoutMembers (depth : Nat) (first : Bool) :
    ∀ ms : List (String × Json), ms ≠ [] →
      SpellsMembers first ms
        (separator first ++ (layoutMembers depth ms ++ (newLine depth ++ ['\x7d'])))
  | [], hne => absurd rfl hne
  | [(k, v)], _ => by
      rw [layoutMembers]
      simp only [List.append_assoc, List.cons_append]
      exact .cons (blanks_newLine _) blanks_space (spells_layout (depth + 1) v)
        (.nil (blanks_newLine depth))
  | (k, v) :: m :: ms, _ => by
      rw [layoutMembers]
      simp only [List.append_assoc, List.cons_append]
      exact .cons (blanks_newLine _) blanks_space (spells_layout (depth + 1) v)
        (spells_layoutMembers depth .false (m :: ms) (List.cons_ne_nil m ms))

end

end WatchWallet.Json
