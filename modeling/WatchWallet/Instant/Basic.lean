import WatchWallet.Instant.Date
import WatchWallet.Text.Digits

/-!
# Instant — Basic

Moments of time in UTC with nanoseconds, held as a reader sees them.  The second 60 is a leap
second and may follow any minute.  The written form uses the fewest of 0, 3, 6 or 9 places that
show the fraction exactly.
-/

namespace WatchWallet

/-- A moment in UTC. -/
structure Instant where
  date : Date
  hour : Fin 24
  minute : Fin 60
  second : Fin 61
  nano : Fin 1000000000
deriving DecidableEq

namespace Instant

/-- The first moment of 1970. -/
def epoch : Instant := ⟨⟨1970, 1, 1, by decide, by decide, by decide⟩, 0, 0, 0, 0⟩

instance : Inhabited Instant := ⟨epoch⟩

/-- The moment `n` seconds after the epoch; leap seconds do not count. -/
def ofUnixSeconds? (n : Int) : Option Instant :=
  (Date.ofUnixDay? (n / 86400)).map fun date =>
    let rest := (n % 86400).toNat
    ⟨date, Fin.ofNat 24 (rest / 3600), Fin.ofNat 60 (rest / 60 % 60), Fin.ofNat 61 (rest % 60), 0⟩

/-- A moment given in local time, in UTC.  The clock of the place is `offset` minutes ahead. -/
def ofLocal? (date : Date) (minutes : Nat) (second : Fin 61) (nano : Fin 1000000000)
    (offset : Int) : Option Instant :=
  let total : Int := minutes - offset
  let date? := if total < 0 then date.previous? else if total < 1440 then some date else date.next?
  let rest := (total % 1440).toNat
  date?.map fun date => ⟨date, Fin.ofNat 24 (rest / 60), Fin.ofNat 60 (rest % 60), second, nano⟩

/-- Years from 0 to 9999 have four digits; the others have a sign and at least four digits. -/
def yearText (year : Int) : List Char :=
  if year < 0 then '-' :: Text.padLeft 4 (Text.digits year.natAbs)
  else if year ≤ 9999 then Text.padLeft 4 (Text.digits year.toNat)
  else '+' :: Text.digits year.toNat

/-- The fraction of a second with the fewest places out of 0, 3, 6 and 9. -/
def fractionText (nano : Nat) : List Char :=
  if nano = 0 then []
  else if nano % 1000000 = 0 then '.' :: Text.padLeft 3 (Text.digits (nano / 1000000))
  else if nano % 1000 = 0 then '.' :: Text.padLeft 6 (Text.digits (nano / 1000))
  else '.' :: Text.padLeft 9 (Text.digits nano)

/-- A moment without its zone. -/
def clockText (t : Instant) : List Char :=
  yearText t.date.year ++ '-' :: Text.twoDigits t.date.month ++ '-' :: Text.twoDigits t.date.day ++
    'T' :: Text.twoDigits t.hour ++ ':' :: Text.twoDigits t.minute ++
    ':' :: Text.twoDigits t.second ++ fractionText t.nano

/-- The written form of a moment, as records carry it. -/
def toText (t : Instant) : String :=
  String.ofList (clockText t ++ ['Z'])

/-- The written form with a numeric zone. -/
def toOffsetText (t : Instant) : String :=
  String.ofList (clockText t ++ ['+', '0', '0', ':', '0', '0'])

end Instant
end WatchWallet
