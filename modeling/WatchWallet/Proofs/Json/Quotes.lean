import Mathlib.Tactic.Common
import WatchWallet.Proofs.Json.Spelling

/-!
# Json — Quotes

The texts of JSON with every way to write a character: as itself, with a backslash and a letter, with four
hexadecimal digits, or with two such escapes for a pair of surrogates (`Quotes`).  The reader takes just
these (`readText_eq_ok`), and numbers just as they are written without superfluous zeros
(`eq_digits_of_readLiteral`).
-/

namespace WatchWallet.Json

/-! ### Texts -/

/-- What stands between the quotes means these characters. -/
inductive Quotes : List Char → List Char → Prop where
  | nil : Quotes [] []
  | plain {c : Char} {cs ds : List Char} (hquote : c ≠ '"') (hslash : c ≠ '\\')
      (hcontrol : 0x20 ≤ c.toNat) (hcs : Quotes cs ds) : Quotes (c :: cs) (c :: ds)
  | short {c e : Char} {cs ds : List Char} (he : escaped? c = some e) (hcs : Quotes cs ds) :
      Quotes ('\\' :: c :: cs) (e :: ds)
  | unit {a b c d : Char} {n : Nat} {cs ds : List Char} (hn : hexUnit? a b c d = some n)
      (halone : n < 0xD800 ∨ 0xDFFF < n) (hcs : Quotes cs ds) :
      Quotes ('\\' :: 'u' :: a :: b :: c :: d :: cs) (Char.ofNat n :: ds)
  | pair {a b c d e f g h : Char} {n m : Nat} {cs ds : List Char} (hn : hexUnit? a b c d = some n)
      (hhigh : 0xD800 ≤ n ∧ n ≤ 0xDBFF) (hm : hexUnit? e f g h = some m)
      (hlow : 0xDC00 ≤ m ∧ m ≤ 0xDFFF) (hcs : Quotes cs ds) :
      Quotes ('\\' :: 'u' :: a :: b :: c :: d :: '\\' :: 'u' :: e :: f :: g :: h :: cs)
        (ofSurrogates n m :: ds)

theorem Quotes.readChars {cs ds : List Char} (hq : Quotes cs ds) (rest : List Char) :
    readChars (cs ++ '"' :: rest) = .ok (ds, rest) := by
  induction hq with
  | nil => rfl
  | plain hquote hslash hcontrol _ ih =>
      -- all other equations of the reader begin with a quote or a backslash
      rw [List.cons_append, Json.readChars, if_neg (by omega), ih]
      · rfl
      · exact hquote
      · exact fun h => (hslash h).elim
      · exact fun _ _ _ _ _ h => (hslash h).elim
      · exact fun _ h => (hslash h).elim
      · exact fun _ _ h => (hslash h).elim
  | @short c e cs ds he _ ih =>
      have hu : c ≠ 'u' := by
        rintro rfl
        cases he
      rw [List.cons_append, List.cons_append, Json.readChars, he, ih]
      · rfl
      · exact fun _ _ _ _ _ h => (hu h).elim
      · exact fun h => (hu h).elim
  | unit hn halone _ ih =>
      simp only [List.cons_append]
      rw [Json.readChars, hn]
      dsimp only
      rw [if_neg (by omega), if_neg (by omega), ih]
      rfl
  | pair hn hhigh hm hlow _ ih =>
      simp only [List.cons_append]
      rw [Json.readChars, hn]
      dsimp only
      rw [if_neg (by omega), if_pos hhigh]
      simp only [hm]
      rw [if_pos hlow, ih]
      rfl

/-- Of characters that are read with one more in front, the others are what the rest is read as. -/
theorem exists_of_map_cons {c : Char} {ds rest : List Char}
    {result : Except Fault (List Char × List Char)}
    (h : result.map (fun (cs, rest) => (c :: cs, rest)) = .ok (ds, rest)) :
    ∃ ds', result = .ok (ds', rest) ∧ ds = c :: ds' := by
  cases result with
  | error e => cases h
  | ok p =>
      obtain ⟨cs, r⟩ := p
      cases h
      exact ⟨cs, rfl, rfl⟩

theorem exists_quotes_of_readChars {cs ds rest : List Char} (h : readChars cs = .ok (ds, rest)) :
    ∃ front, cs = front ++ '"' :: rest ∧ Quotes front ds := by
  -- One case for each way to write a character; in all others the reader has stopped.
  fun_induction readChars cs generalizing ds with
  | case2 r =>
      cases h
      exact ⟨[], rfl, .nil⟩
  | case7 _ _ _ _ n hn _ hhigh _ _ _ _ r m hm hlow ih =>
      obtain ⟨ds, hr, rfl⟩ := exists_of_map_cons h
      obtain ⟨front, rfl, hq⟩ := ih hr
      exact ⟨_, rfl, .pair hn hhigh hm hlow hq⟩
  | case14 _ _ _ _ r n hn hlow hhigh ih =>
      obtain ⟨ds, hr, rfl⟩ := exists_of_map_cons h
      obtain ⟨front, rfl, hq⟩ := ih hr
      exact ⟨_, rfl, .unit hn (by omega) hq⟩
  | case17 _ _ _ _ _ he ih =>
      obtain ⟨ds, hr, rfl⟩ := exists_of_map_cons h
      obtain ⟨front, rfl, hq⟩ := ih hr
      exact ⟨_, rfl, .short he hq⟩
  | case19 c r hquote hlone _ _ hslash hcontrol ih =>
      obtain ⟨ds, hr, rfl⟩ := exists_of_map_cons h
      obtain ⟨front, rfl, hq⟩ := ih hr
      refine ⟨c :: front, rfl, .plain hquote ?_ (by omega) hq⟩
      exact fun hc => hslash _ _ hc (List.cons_head_tail (by simp)).symm
  | _ => cases h

/-- **A text is read as what its quotes mean.** -/
theorem readText_eq_ok {cs rest : List Char} {s : String} :
    readText cs = .ok (s, rest) ↔ ∃ front, cs = front ++ '"' :: rest ∧ Quotes front s.toList := by
  rw [readText]
  constructor
  · intro h
    cases hread : readChars cs with
    | error e =>
        rw [hread] at h
        cases h
    | ok p =>
        rw [hread] at h
        cases h
        rw [String.toList_ofList]
        exact exists_quotes_of_readChars hread
  · rintro ⟨front, rfl, hq⟩
    rw [hq.readChars]
    show Except.ok (String.ofList s.toList, rest) = _
    rw [String.ofList_toList]

/-! ### Numbers -/

/-- When all digits are taken, the number is theirs, and it stays below the bound. -/
theorem gather_of_length_le {bound n : Nat} (hn : n < bound) {ds : List Char}
    (h : ds.length ≤ (gather bound n ds).2) :
    (gather bound n ds).1 = ds.foldl (fun n c => 10 * n + Text.digitValue c) n ∧
      (gather bound n ds).1 < bound := by
  induction ds generalizing n with
  | nil => exact ⟨rfl, hn⟩
  | cons d ds ih =>
      rw [gather] at h ⊢
      split at h
      · rename_i hlt
        rw [if_pos hlt]
        exact ih hlt (Nat.le_of_succ_le_succ h)
      · exact absurd h (Nat.not_succ_le_zero _)

/-- The digits of a number of 64 bits, if all are taken, are those that it is written with. -/
theorem digits_gather {run : List Char} (hrun : Text.Canonical run)
    (h : run.length ≤ (gather UInt64.size 0 run).2) :
    Text.digits (gather UInt64.size 0 run).1 = run ∧ (gather UInt64.size 0 run).1 < UInt64.size := by
  obtain ⟨hvalue, hlt⟩ := gather_of_length_le (by decide) h
  exact ⟨(congrArg Text.digits hvalue).trans hrun.digits_value, hlt⟩

/-- A number with a fraction or an exponent is a float. -/
theorem float_of_floatLiteral {positive : Bool} {digits : Nat} {power : Int} {cs rest : List Char}
    {l : Literal} (h : floatLiteral positive digits power cs = .ok (l, rest)) : ∃ x, l = .float x := by
  unfold floatLiteral at h
  split at h
  · cases h
  · cases h
    exact ⟨_, rfl⟩

theorem float_of_readExponent {positive : Bool} {digits : Nat} {power : Int} {cs rest : List Char}
    {l : Literal} (h : readExponent positive digits power cs = .ok (l, rest)) : ∃ x, l = .float x := by
  unfold readExponent at h
  split at h
  split at h
  · cases h
  · split at h
    · dsimp only at h
      split at h
      · exact float_of_floatLiteral h
      · split at h
        · cases h
        · cases h
          exact ⟨_, rfl⟩
    · cases h

theorem float_of_readFraction {positive : Bool} {digits : Nat} {power : Int} {cs rest : List Char}
    {l : Literal} (h : readFraction positive digits power cs = .ok (l, rest)) : ∃ x, l = .float x := by
  unfold readFraction at h
  dsimp only at h
  split at h
  · cases h
  · cases h
  · split at h
    · exact float_of_readExponent h
    · exact float_of_readExponent h
    · exact float_of_floatLiteral h

/-- An integer is a natural number if it has no sign. -/
theorem eq_of_integerLiteral {positive : Bool} {k n : Nat}
    (h : integerLiteral positive k = .natural n) : positive = true ∧ k = n := by
  unfold integerLiteral at h
  split at h
  · cases h
    exact ⟨‹_›, rfl⟩
  · split at h <;> cases h

/-- **A number is a float, or the integer of its digits.**  The digits of an integer are all taken, and
neither a fraction nor an exponent follows them. -/
theorem readLiteral_cases {positive : Bool} {cs rest : List Char} {l : Literal}
    (h : readLiteral positive cs = .ok (l, rest)) :
    (∃ x, l = .float x) ∨ ∃ run, cs = run ++ rest ∧ Text.Canonical run ∧ Ends rest ∧
      run.length ≤ (gather UInt64.size 0 run).2 ∧
      l = integerLiteral positive (gather UInt64.size 0 run).1 := by
  unfold readLiteral at h
  split at h
  · cases h
  rename_i c r
  dsimp only at h
  rw [Text.drop_takeWhile] at h
  have hsplit := List.takeWhile_append_dropWhile (p := Text.isDigit) (l := c :: r)
  have hstops := Text.stops_dropWhile (c :: r)
  have hrun : ∀ d ∈ (c :: r).takeWhile Text.isDigit, Text.isDigit d = true :=
    fun _ => List.mem_takeWhile_imp
  generalize (c :: r).takeWhile Text.isDigit = run at h hsplit hrun
  generalize (c :: r).dropWhile Text.isDigit = after at h hsplit hstops
  split at h
  · cases h
  rename_i hne
  split at h
  · cases h
  rename_i hlone
  -- no digits but the zero itself come after a zero
  have hlead : ∀ ds, run = '0' :: ds → ds = [] := by
    rintro ds rfl
    obtain ⟨rfl, -⟩ := List.cons.inj hsplit
    by_contra hds
    exact hlone ⟨rfl, Nat.succ_lt_succ (List.length_pos_iff.2 hds)⟩
  split at h
  · exact .inl (float_of_readFraction h)
  · exact .inl (float_of_readExponent h)
  · exact .inl (float_of_readExponent h)
  · rename_i hpoint he hE
    split at h
    · rename_i hall
      cases h
      refine .inr ⟨run, hsplit.symm, ⟨hrun, hne, hlead⟩, fun d hd => ?_,
        Nat.sub_eq_zero_iff_le.1 hall, rfl⟩
      obtain ⟨ds, hds⟩ := List.head?_eq_some_iff.1 (Option.mem_def.1 hd)
      exact ⟨hstops d hd, fun h => hpoint ds (h ▸ hds), fun h => he ds (h ▸ hds),
        fun h => hE ds (h ▸ hds)⟩
    · exact .inl (float_of_floatLiteral h)

/-- **A natural number is read from its digits only**, without a sign, a fraction or an exponent, and if it
takes no more than 64 bits. -/
theorem eq_digits_of_readLiteral {positive : Bool} {cs rest : List Char} {n : Nat}
    (h : readLiteral positive cs = .ok (.natural n, rest)) :
    positive = true ∧ n < UInt64.size ∧ cs = Text.digits n ++ rest ∧ Ends rest := by
  rcases readLiteral_cases h with ⟨x, hx⟩ | ⟨run, hcs, hcanonical, hends, hall, hnatural⟩
  · cases hx
  · obtain ⟨hpositive, hn⟩ := eq_of_integerLiteral hnatural.symm
    obtain ⟨hdigits, hlt⟩ := digits_gather hcanonical hall
    rw [hn] at hdigits hlt
    exact ⟨hpositive, hlt, by rw [hdigits, hcs], hends⟩

end WatchWallet.Json
