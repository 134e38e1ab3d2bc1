import Mathlib.Data.List.Induction
import WatchWallet.Amount.Basic
import WatchWallet.Proofs.Text.Digits

/-!
# Amount — Basic

Digits are read as the number that they stand for (`ofDigits?_eq_some`): what does not fit on the way does
not fit in the end.  So a text is read as its digits without the white space around them
(`parse_eq_ok`), and an amount is read back from its text (`parse_toText`).
-/

namespace WatchWallet.Amount

theorem ofNat?_val (a : Amount) : ofNat? a.val = some a :=
  dif_pos a.lt

theorem ofNat?_eq_some {n : Nat} {a : Amount} : ofNat? n = some a ↔ n = a.val := by
  constructor
  · intro h
    unfold ofNat? at h
    split at h
    · cases h
      rfl
    · cases h
  · rintro rfl
    exact ofNat?_val a

/-- A digit goes behind an amount when the number with it fits: ten times the amount fits all the more. -/
theorem push?_eq_some {a b : Amount} {c : Char} :
    push? a c = some b ↔ Text.isDigit c = true ∧ 10 * a.val + Text.digitValue c = b.val := by
  unfold push?
  split
  · rename_i hc
    rw [Option.bind_eq_bind, Option.bind_eq_some_iff]
    simp only [ofNat?_eq_some]
    constructor
    · rintro ⟨tenfold, htenfold, hsum⟩
      exact ⟨hc, by rw [htenfold, hsum]⟩
    · rintro ⟨-, hsum⟩
      exact ⟨⟨10 * a.val, Nat.lt_of_le_of_lt (hsum ▸ Nat.le_add_right ..) b.lt⟩, rfl, hsum⟩
  · rename_i hc
    exact ⟨nofun, fun h => absurd h.1 hc⟩

/-- **Digits are read as the number that they stand for**, as far as it is an amount. -/
theorem ofDigits?_eq_some {cs : List Char} {a : Amount} :
    ofDigits? cs = some a ↔ (∀ c ∈ cs, Text.isDigit c = true) ∧ Text.value cs = a.val := by
  induction cs using List.reverseRecOn generalizing a with
  | nil =>
      refine ⟨fun h => ?_, fun h => ?_⟩
      · obtain rfl : zero = a := Option.some.inj h
        exact ⟨fun _ hc => absurd hc List.not_mem_nil, rfl⟩
      · exact congrArg some (Amount.ext h.2)
  | append_singleton cs c ih =>
      have hstep : ofDigits? (cs ++ [c]) = (ofDigits? cs).bind (push? · c) := by
        rw [ofDigits?, List.foldlM_append]
        refine congrArg _ (funext fun b => ?_)
        simp only [List.foldlM_cons, List.foldlM_nil, bind_pure]
      rw [hstep, Option.bind_eq_some_iff, Text.value_concat]
      simp only [ih, push?_eq_some, List.forall_mem_append, List.forall_mem_singleton]
      constructor
      · rintro ⟨b, ⟨hcs, hb⟩, hc, hsum⟩
        exact ⟨⟨hcs, hc⟩, by rw [hb, hsum]⟩
      · rintro ⟨⟨hcs, hc⟩, hsum⟩
        have hlt : Text.value cs < size := by
          have hlt := a.lt
          omega
        exact ⟨⟨Text.value cs, hlt⟩, ⟨hcs, rfl⟩, hc, hsum⟩

/-- A text is read as the digits in it. -/
theorem parse_eq_ok {s : String} {a : Amount} : parse s = .ok a ↔
    (∀ c ∈ Text.trim s.toList, Text.isDigit c = true) ∧ Text.value (Text.trim s.toList) = a.val := by
  rw [← ofDigits?_eq_some, parse]
  cases ofDigits? (Text.trim s.toList) with
  | some b => exact ⟨fun h => congrArg some (Except.ok.inj h), fun h => congrArg Except.ok (Option.some.inj h)⟩
  | none => exact ⟨nofun, nofun⟩

/-- A text that is not read is the one that the error names. -/
theorem parse_eq_error {s : String} (h : ∀ a, parse s ≠ .ok a) : parse s = .error (.invalid s) := by
  unfold parse at h ⊢
  cases hdigits : ofDigits? (Text.trim s.toList) with
  | some a => exact absurd (by rw [hdigits]) (h a)
  | none => rfl

/-- **An amount is read back from its text.** -/
theorem parse_toText (a : Amount) : parse a.toText = .ok a := by
  have hdigits := (Text.canonical_digits a.val).isDigit
  rw [parse_eq_ok, toText, String.toList_ofList, Text.trim_run hdigits (Text.digits_ne_nil a.val)]
  exact ⟨hdigits, Text.value_digits a.val⟩

end WatchWallet.Amount
