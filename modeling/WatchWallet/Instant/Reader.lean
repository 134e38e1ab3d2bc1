import WatchWallet.Instant.Basic
import WatchWallet.Text.Blank

/-!
# Instant — Reader

Reads a moment from a date, a time of day and an offset from UTC.  White space may stand before
each number and each separator; month, day, hour, minute and second have one or two digits; a year
has up to four digits, or any number of them after a sign; digits of the fraction past the ninth
are dropped.  The zone is `Z`, `UTC` or a signed offset of hours and minutes.
-/

namespace WatchWallet.Instant

/-- Why a text is no moment. -/
inductive Error
  | tooShort
  | invalid
  | outOfRange
  | impossible
  | tooLong
deriving DecidableEq

/-- The wording of a reading error. -/
def Error.message : Error → String
  | .tooShort => "premature end of input"
  | .invalid => "input contains invalid characters"
  | .outOfRange => "input is out of range"
  | .impossible => "no possible date and time matching input"
  | .tooLong => "trailing input"

/-- A reader takes what it reads from the front of a text. -/
abbrev Reader (α : Type) := List Char → Except Error (α × List Char)

/-- A number of one to `width` digits.  It must fit a signed word of 64 bits. -/
def readNumber (width : Nat) : Reader Nat := fun cs =>
  let run := (cs.take width).takeWhile Text.isDigit
  match cs, run with
  | [], _ => .error .tooShort
  | _, [] => .error .invalid
  | cs, run =>
    let n := Text.value run
    if n < Nat.pow 2 63 then .ok (n, cs.drop run.length) else .error .outOfRange

/-- A number within bounds, after white space. -/
def readPart (low high : Nat) : Reader Nat := fun cs => do
  let (n, rest) ← readNumber 2 (Text.trimLeft cs)
  if low ≤ n ∧ n ≤ high then .ok (n, rest) else .error .outOfRange

/-- A number with a sign, or one of up to four digits. -/
def readSigned : Reader Int
  | '-' :: r => (readNumber r.length r).map (Prod.map (fun n : Nat => -(n : Int)) id)
  | '+' :: r => (readNumber r.length r).map (Prod.map Int.ofNat id)
  | r => (readNumber 4 r).map (Prod.map Int.ofNat id)

/-- A year, after white space. -/
def readYear : Reader Int := fun cs => do
  let (year, rest) ← readSigned (Text.trimLeft cs)
  if -(Nat.pow 2 31 : Int) ≤ year ∧ year < Nat.pow 2 31 then .ok (year, rest)
  else .error .outOfRange

/-- A separator, after white space. -/
def readMark (mark : Char) (cs : List Char) : Except Error (List Char) :=
  match Text.trimLeft cs with
  | [] => .error .tooShort
  | c :: r => if c = mark then .ok r else .error .invalid

/-- The mark between date and time. -/
def readDateEnd : List Char → Except Error (List Char)
  | [] => .error .tooShort
  | c :: r => if c = 'T' ∨ c = 't' ∨ c = ' ' then .ok r else .error .invalid

/-- An optional fraction of a second, in nanoseconds. -/
def readFraction : Reader (Fin 1000000000) := fun cs =>
  match cs with
  | '.' :: r => do
    let (n, rest) ← readNumber 9 r
    let places := r.length - rest.length
    .ok (⟨n * Nat.pow 10 (9 - places) % 1000000000, Nat.mod_lt _ (by decide)⟩,
      rest.dropWhile Text.isDigit)
  | cs => .ok (⟨0, by decide⟩, cs)

/-- Two digits; a lone character that takes more than one byte is no premature end. -/
def readTwoDigits : Reader Nat
  | [] => .error .tooShort
  | [c] => if c.utf8Size = 1 then .error .tooShort else .error .invalid
  | a :: b :: r =>
    if Text.isDigit a ∧ Text.isDigit b then .ok (Text.value [a, b], r) else .error .invalid

/-- The sign of an offset; the minus sign of Unicode counts too. -/
def readSign : Reader Int
  | [] => .error .tooShort
  | c :: r =>
    if c = '+' then .ok (1, r)
    else if c = '-' ∨ c = '\u2212' then .ok (-1, r)
    else .error .invalid

/-- A zone, as its offset from UTC in minutes. -/
def readZone (cs : List Char) : Except Error (Int × List Char) :=
  match cs with
  | 'Z' :: r | 'z' :: r => .ok (0, r)
  | cs =>
    if (cs.take 3).map Char.toUpper = ['U', 'T', 'C'] then .ok (0, cs.drop 3)
    else do
      let (sign, r) ← readSign cs
      let (hours, r) ← readTwoDigits r
      let (minutes, r) ← readTwoDigits (r.dropWhile fun c => c = ':' || Text.isBlank c)
      if minutes < 60 then .ok (sign * (60 * hours + minutes), r) else .error .outOfRange

/-- Reads a moment.  White space may follow it. -/
def parse (s : String) : Except Error Instant := do
  let (year, r) ← readYear s.toList
  let r ← readMark '-' r
  let (month, r) ← readPart 1 12 r
  let r ← readMark '-' r
  let (day, r) ← readPart 1 31 r
  let r ← readDateEnd r
  let (hour, r) ← readPart 0 23 r
  let r ← readMark ':' r
  let (minute, r) ← readPart 0 59 r
  let r ← readMark ':' r
  let (second, r) ← readPart 0 60 r
  let (nano, r) ← readFraction r
  let (offset, r) ← readZone (Text.trimLeft r)
  if Text.trimLeft r ≠ [] then .error .tooLong
  else
    match Date.of? year month day with
    | none => .error .outOfRange
    | some date =>
      if offset.natAbs < 1440 then
        match ofLocal? date (60 * hour + minute) ⟨second % 61, Nat.mod_lt _ (by decide)⟩ nano
            offset with
        | none => .error .impossible
        | some t => .ok t
      else .error .outOfRange

end WatchWallet.Instant
