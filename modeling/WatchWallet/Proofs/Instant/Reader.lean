import WatchWallet.Instant.Reader
import WatchWallet.Proofs.Text.Digits

/-!
# Instant — Reader

The reader takes back every written moment (`parse_toText`).  Each part of the text is read up to the
mark that follows it; the lemmas `read…_…` go through the parts in order.
-/

namespace WatchWallet.Instant
open Text (Stops digits padLeft twoDigits)

variable {rest : List Char}

/-! ### Numbers -/

/-- A number is read back from its digits, also after zeros. -/
theorem readNumber_padLeft {width k n : Nat} (hwidth : (padLeft k (digits n)).length ≤ width)
    (hn : n < Nat.pow 2 63) (hrest : Stops rest) :
    readNumber width (padLeft k (digits n) ++ rest) = .ok (n, rest) := by
  have hrun : ((padLeft k (digits n) ++ rest).take width).takeWhile Text.isDigit =
      padLeft k (digits n) := by
    rw [List.take_append, List.take_of_length_le hwidth]
    exact Text.takeWhile_run (fun c => Text.isDigit_of_mem_padLeft) (hrest.take _)
  have hvalue := Text.value_padLeft_digits k n
  have hne := Text.padLeft_digits_ne_nil k n
  unfold readNumber
  rw [hrun]
  generalize padLeft k (digits n) = ds at hne hvalue
  cases ds with
  | nil => exact absurd rfl hne
  | cons d ds =>
      show (if _ then Except.ok (_, _) else _) = _
      rw [hvalue, if_pos hn, List.drop_left]

/-- Two digits are read as the number that they were written for. -/
theorem readPart_twoDigits {lo hi n : Nat} (hn : n < 100) (hlo : lo ≤ n) (hhi : n ≤ hi)
    (hrest : Stops rest) : readPart lo hi (twoDigits n ++ rest) = .ok (n, rest) := by
  have hwidth : (padLeft 2 (digits n)).length = 2 := Text.length_padLeft_digits Nat.two_pos hn
  unfold readPart twoDigits
  rw [Text.trimLeft_run (fun c => Text.isDigit_of_mem_padLeft) (Text.padLeft_digits_ne_nil 2 n),
    readNumber_padLeft (Nat.le_of_eq hwidth) (Nat.lt_trans hn (by decide)) hrest]
  exact if_pos ⟨hlo, hhi⟩

/-- A mark is read where it stands. -/
theorem readMark_cons {mark : Char} (hmark : Text.isBlank mark = false) :
    readMark mark (mark :: rest) = .ok rest := by
  rw [readMark, Text.trimLeft_cons hmark]
  exact if_pos rfl

/-! ### The parts of a moment -/

/-- Without a sign the number has up to four digits. -/
theorem readSigned_run {ds : List Char} (hds : ∀ c ∈ ds, Text.isDigit c = true) (hne : ds ≠ []) :
    readSigned (ds ++ rest) = (readNumber 4 (ds ++ rest)).map (Prod.map Int.ofNat id) := by
  cases ds with
  | nil => exact absurd rfl hne
  | cons d ds =>
      have hd := hds d List.mem_cons_self
      unfold readSigned
      split
      · rename_i heq
        rw [(List.cons.inj heq).1] at hd
        cases hd
      · rename_i heq
        rw [(List.cons.inj heq).1] at hd
        cases hd
      · rfl

theorem readYear_yearText {year : Int} (hyear : -262143 ≤ year ∧ year ≤ 262142)
    (hrest : Stops rest) : readYear (yearText year ++ rest) = .ok (year, rest) := by
  have hbounds : -(Nat.pow 2 31 : Int) ≤ year ∧ year < Nat.pow 2 31 := by
    show -2147483648 ≤ year ∧ year < 2147483648
    omega
  have hsmall : ∀ {n : Nat}, n ≤ 262143 → n < Nat.pow 2 63 := fun hn => Nat.lt_of_le_of_lt hn (by decide)
  have hwidth : ∀ {ds : List Char}, ds.length ≤ (ds ++ rest).length := fun {ds} => by
    rw [List.length_append]
    exact Nat.le_add_right ..
  have hread : readSigned (Text.trimLeft (yearText year ++ rest)) = .ok (year, rest) := by
    unfold yearText
    -- negative years and those of five digits are written with a sign, the others with four digits
    split
    · rw [List.cons_append, Text.trimLeft_cons rfl, readSigned,
        readNumber_padLeft hwidth (hsmall (by omega)) hrest]
      show Except.ok (-(year.natAbs : Int), rest) = _
      rw [show -(year.natAbs : Int) = year by omega]
    · split
      · rename_i hnonneg hle
        have hlength : (padLeft 4 (digits year.toNat)).length = 4 :=
          Text.length_padLeft_digits (by decide) (Nat.lt_of_le_of_lt (m := 9999) (by omega) (by decide))
        rw [Text.trimLeft_run (fun c => Text.isDigit_of_mem_padLeft) (Text.padLeft_digits_ne_nil 4 _),
          readSigned_run (fun c => Text.isDigit_of_mem_padLeft) (Text.padLeft_digits_ne_nil 4 _),
          readNumber_padLeft (Nat.le_of_eq hlength) (hsmall (by omega)) hrest]
        show Except.ok ((year.toNat : Int), rest) = _
        rw [show (year.toNat : Int) = year by omega]
      · have hpad : digits year.toNat = padLeft 0 (digits year.toNat) := by simp [padLeft]
        rw [List.cons_append, Text.trimLeft_cons rfl, readSigned, hpad,
          readNumber_padLeft hwidth (hsmall (by omega)) hrest]
        show Except.ok ((year.toNat : Int), rest) = _
        rw [show (year.toNat : Int) = year by omega]
  unfold readYear
  rw [hread]
  exact if_pos hbounds

/-- A fraction is read with the places that it was written with. -/
theorem readFraction_padLeft {k n : Nat} {nano : Fin 1000000000} (hk : 0 < k) (hk9 : k ≤ 9)
    (hn : n < Nat.pow 10 k) (hnano : n * Nat.pow 10 (9 - k) = nano) (hrest : Stops rest) :
    readFraction ('.' :: (padLeft k (digits n) ++ rest)) = .ok (nano, rest) := by
  have hlength : (padLeft k (digits n)).length = k := Text.length_padLeft_digits hk hn
  have hlt : n < Nat.pow 2 63 := by
    have hpow : Nat.pow 10 k ≤ Nat.pow 10 9 := Nat.pow_le_pow_right (by decide) hk9
    exact Nat.lt_of_lt_of_le hn (Nat.le_trans hpow (by decide))
  have hplaces : (padLeft k (digits n) ++ rest).length - rest.length = k := by
    rw [List.length_append, hlength, Nat.add_sub_cancel]
  rw [readFraction, readNumber_padLeft (by rw [hlength]; exact hk9) hlt hrest]
  show Except.ok ((⟨_, _⟩ : Fin 1000000000), _) = _
  simp only [hplaces, hnano, hrest.dropWhile, Nat.mod_eq_of_lt nano.isLt]

/-- Whatever places a fraction is written with, it is read back. -/
theorem readFraction_fractionText (nano : Fin 1000000000) (hrest : Stops rest)
    (hpoint : rest.head? ≠ some '.') :
    readFraction (fractionText nano ++ rest) = .ok (nano, rest) := by
  have hlt := nano.isLt
  unfold fractionText
  split
  · rename_i hzero
    have hnano : nano = ⟨0, by decide⟩ := Fin.ext hzero
    rw [List.nil_append, hnano]
    unfold readFraction
    split
    · exact absurd rfl hpoint
    · rfl
  · split
    · exact readFraction_padLeft (by decide) (by decide) (by show _ < 1000; omega)
        (by show _ * 1000000 = _; omega) hrest
    · split
      · exact readFraction_padLeft (by decide) (by decide) (by show _ < 1000000; omega)
          (by show _ * 1000 = _; omega) hrest
      · exact readFraction_padLeft (by decide) (by decide) hlt (Nat.mul_one _) hrest

/-- Without an offset the clock stays as it is. -/
theorem ofLocal?_self (t : Instant) :
    ofLocal? t.date (60 * t.hour + t.minute) t.second t.nano 0 = some t := by
  have hhour := t.hour.isLt
  have hminute := t.minute.isLt
  have htotal : ((60 * t.hour + t.minute : Nat) : Int) - 0 = (60 * t.hour + t.minute : Nat) :=
    Int.sub_zero _
  have hrest : (((60 * t.hour + t.minute : Nat) : Int) % 1440).toNat = 60 * t.hour + t.minute := by
    omega
  unfold ofLocal?
  dsimp only
  rw [htotal, hrest, if_neg (by omega), if_pos (by omega), Option.map_some]
  have h : Fin.ofNat 24 ((60 * t.hour + t.minute) / 60) = t.hour := by
    apply Fin.ext
    show (60 * t.hour.val + t.minute.val) / 60 % 24 = t.hour.val
    omega
  have m : Fin.ofNat 60 ((60 * t.hour + t.minute) % 60) = t.minute := by
    apply Fin.ext
    show (60 * t.hour.val + t.minute.val) % 60 % 60 = t.minute.val
    omega
  rw [h, m]

/-- **The reader takes back every written moment.** -/
theorem parse_toText (t : Instant) : parse t.toText = .ok t := by
  have hstops : ∀ {c : Char} {r : List Char}, Text.isDigit c = false → Stops (c :: r) :=
    fun hc d hd => Option.some.inj hd ▸ hc
  have hfraction : Stops (fractionText t.nano ++ ['Z']) := by
    unfold fractionText
    split
    · exact hstops rfl
    · split
      · exact hstops rfl
      · split <;> exact hstops rfl
  have hlast : t.date.day ≤ 31 := by
    refine Nat.le_trans t.date.day_bounds.2 ?_
    unfold daysInMonth
    split
    · split <;> decide
    all_goals decide
  obtain ⟨hmonth₁, hmonth₂⟩ := t.date.month_bounds
  have hyear : ∀ r, readYear (yearText t.date.year ++ '-' :: r) = .ok (t.date.year, '-' :: r) :=
    fun _ => readYear_yearText t.date.year_bounds (hstops rfl)
  have hmonth : ∀ r, readPart 1 12 (twoDigits t.date.month ++ '-' :: r) =
      .ok (t.date.month, '-' :: r) :=
    fun _ => readPart_twoDigits (by omega) hmonth₁ hmonth₂ (hstops rfl)
  have hday : ∀ r, readPart 1 31 (twoDigits t.date.day ++ 'T' :: r) = .ok (t.date.day, 'T' :: r) :=
    fun _ => readPart_twoDigits (by omega) t.date.day_bounds.1 hlast (hstops rfl)
  have hhour : ∀ r, readPart 0 23 (twoDigits t.hour ++ ':' :: r) = .ok (t.hour.val, ':' :: r) :=
    fun _ => readPart_twoDigits (by omega) (Nat.zero_le _) (by omega) (hstops rfl)
  have hminute : ∀ r, readPart 0 59 (twoDigits t.minute ++ ':' :: r) =
      .ok (t.minute.val, ':' :: r) :=
    fun _ => readPart_twoDigits (by omega) (Nat.zero_le _) (by omega) (hstops rfl)
  have hsecond : readPart 0 60 (twoDigits t.second ++ (fractionText t.nano ++ ['Z'])) =
      .ok (t.second.val, fractionText t.nano ++ ['Z']) :=
    readPart_twoDigits (by omega) (Nat.zero_le _) (by omega) hfraction
  have hnano : readFraction (fractionText t.nano ++ ['Z']) = .ok (t.nano, ['Z']) :=
    readFraction_fractionText t.nano (hstops rfl) (by decide)
  have hdash : ∀ r, readMark '-' ('-' :: r) = .ok r := fun _ => readMark_cons rfl
  have hcolon : ∀ r, readMark ':' (':' :: r) = .ok r := fun _ => readMark_cons rfl
  have hend : ∀ r, readDateEnd ('T' :: r) = .ok r := fun _ => rfl
  have hzone : readZone (Text.trimLeft ['Z']) = .ok (0, []) := rfl
  have hempty : ¬Text.trimLeft [] ≠ [] := fun h => h rfl
  have hsmall : (⟨t.second.val % 61, Nat.mod_lt _ (by decide)⟩ : Fin 61) = t.second :=
    Fin.ext (Nat.mod_eq_of_lt t.second.isLt)
  unfold parse toText clockText
  rw [String.toList_ofList]
  simp only [List.append_assoc, List.cons_append, bind, Except.bind, hyear, hdash, hmonth, hday,
    hend, hcolon, hhour, hminute, hsecond, hnano, hzone]
  rw [if_neg hempty, Date.of?_self]
  dsimp only
  rw [if_pos (by decide), hsmall, ofLocal?_self]

end WatchWallet.Instant
