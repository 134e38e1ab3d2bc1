/-!
# Text — Lossy

Bytes as a text in UTF-8, whatever they are.  Every longest run of bytes that starts a character and
does not finish it, and every byte that starts none, is read as the replacement character.
-/

namespace WatchWallet.Text

/-- The character that stands for bytes that are no text. -/
def replacement : Char := '\uFFFD'

/-- What the first byte of a character says about the others: their number, the bounds of the first
of them, and the leading bits of the character. -/
def lead? (b : Nat) : Option (Nat × Nat × Nat × Nat) :=
  if b < 0xC2 then none
  else if b < 0xE0 then some (1, 0x80, 0xBF, b % 32)
  else if b < 0xF0 then
    some (2, if b = 0xE0 then 0xA0 else 0x80, if b = 0xED then 0x9F else 0xBF, b % 16)
  else if b < 0xF5 then
    some (3, if b = 0xF0 then 0x90 else 0x80, if b = 0xF4 then 0x8F else 0xBF, b % 8)
  else none

/-- Reads the other bytes of a character as far as they fit; gives the character if all of them
do, and the bytes after. -/
def readTail : Nat → Nat → Nat → Nat → List UInt8 → Option Char × List UInt8
  | 0, _, _, bits, bs => (some (Char.ofNat bits), bs)
  | _ + 1, _, _, _, [] => (none, [])
  | n + 1, lo, hi, bits, b :: bs =>
    if lo ≤ b.toNat ∧ b.toNat ≤ hi then readTail n 0x80 0xBF (64 * bits + b.toNat % 64) bs
    else (none, b :: bs)

theorem length_readTail_le (n lo hi bits : Nat) (bs : List UInt8) :
    (readTail n lo hi bits bs).2.length ≤ bs.length := by
  induction n generalizing lo hi bits bs with
  | zero => exact Nat.le_refl _
  | succ n ih =>
    match bs with
    | [] => exact Nat.le_refl _
    | b :: bs =>
      simp only [readTail]
      split
      · exact Nat.le_trans (ih ..) (Nat.le_succ _)
      · exact Nat.le_refl _

/-- The characters of bytes. -/
def lossyChars : List UInt8 → List Char
  | [] => []
  | b :: bs =>
    if b < 0x80 then Char.ofNat b.toNat :: lossyChars bs
    else
      match lead? b.toNat with
      | none => replacement :: lossyChars bs
      | some (n, lo, hi, bits) =>
        (readTail n lo hi bits bs).1.getD replacement :: lossyChars (readTail n lo hi bits bs).2
termination_by bs => bs.length
decreasing_by
  · simp
  · simp
  · exact Nat.lt_succ_of_le (length_readTail_le ..)

/-- Bytes as a text. -/
def lossy (bs : List UInt8) : String :=
  String.ofList (lossyChars bs)

end WatchWallet.Text
