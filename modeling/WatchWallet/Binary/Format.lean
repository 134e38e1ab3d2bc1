import WatchWallet.Amount.Basic
import WatchWallet.Instant.Reader

/-!
# Binary — Format

Records as bytes.  Numbers have a fixed width, least byte first; texts and lists start with their
length in eight bytes; an absent value is one byte 0, a present one follows a byte 1; records are
their members in order.  A reader takes exactly what the writer gives and leaves what follows it.
-/

namespace WatchWallet

/-- Bytes in order. -/
abbrev Bytes := List UInt8

namespace Binary

/-- Why bytes are no value. -/
inductive Error where
  /-- The bytes run out. -/
  | exhausted
  /-- The bytes of a text are no characters. -/
  | badText
  /-- The byte before an optional value is neither 0 nor 1. -/
  | badOption
  /-- An amount has a length other than 32. -/
  | amountLength (length : Nat)
  /-- A text is no moment. -/
  | badInstant
  /-- A number names no constructor. -/
  | badVariant
deriving DecidableEq

/-- A reader of values of one type. -/
abbrev Reader (α : Type) := Bytes → Except Error (α × Bytes)

/-- How the values of a type are read and written. -/
structure Format (α : Type) where
  read : Reader α
  write : α → Bytes

/-- A number in `width` bytes, least first. -/
def littleEndian : Nat → Nat → Bytes
  | 0, _ => []
  | width + 1, n => UInt8.ofNat (n % 256) :: littleEndian width (n / 256)

/-- The number with these bytes, least first. -/
def ofLittleEndian : Bytes → Nat
  | [] => 0
  | b :: bs => b.toNat + 256 * ofLittleEndian bs

/-- The next `n` bytes. -/
def take : Nat → Reader Bytes
  | 0, bs => .ok ([], bs)
  | _ + 1, [] => .error .exhausted
  | n + 1, b :: bs => (take n bs).map fun (front, rest) => (b :: front, rest)

/-- A number of `width` bytes. -/
def readNat (width : Nat) : Reader Nat := fun bs =>
  (take width bs).map fun (front, rest) => (ofLittleEndian front, rest)

namespace Format

variable {α β : Type}

/-- The value at the front of some bytes; what follows it is not looked at. -/
def decode (f : Format α) (bs : Bytes) : Except Error α :=
  (f.read bs).map Prod.fst

/-- A format for another type with the same values. -/
def map (f : Format α) (build : α → β) (back : β → α) : Format β where
  read bs := (f.read bs).map fun (a, rest) => (build a, rest)
  write b := f.write (back b)

/-- Nothing at all. -/
def unit : Format Unit where
  read bs := .ok ((), bs)
  write _ := []

/-- One value after another. -/
def pair (f : Format α) (g : Format β) : Format (α × β) where
  read bs := do
    let (a, bs) ← f.read bs
    let (b, bs) ← g.read bs
    return ((a, b), bs)
  write := fun (a, b) => f.write a ++ g.write b

/-- Words of 32 bits. -/
def uint32 : Format UInt32 where
  read bs := (readNat 4 bs).map fun (n, rest) => (UInt32.ofNat n, rest)
  write n := littleEndian 4 n.toNat

/-- Words of 64 bits. -/
def uint64 : Format UInt64 where
  read bs := (readNat 8 bs).map fun (n, rest) => (UInt64.ofNat n, rest)
  write n := littleEndian 8 n.toNat

/-- Texts in UTF-8 after their length in bytes. -/
def text : Format String where
  read bs := do
    let (n, bs) ← readNat 8 bs
    let (front, bs) ← take n bs
    match String.fromUTF8? (ByteArray.mk front.toArray) with
    | some s => .ok (s, bs)
    | none => .error .badText
  write s := littleEndian 8 s.utf8ByteSize ++ s.toUTF8.toList

/-- A value that may be absent. -/
def option (f : Format α) : Format (Option α) where
  read bs := do
    let (front, bs) ← take 1 bs
    match front with
    | [0] => .ok (none, bs)
    | [1] => (f.read bs).map fun (a, rest) => (some a, rest)
    | _ => .error .badOption
  write
    | none => [0]
    | some a => 1 :: f.write a

/-- `n` values.  Where every value takes a byte the bytes bound their number: one more value than
there are bytes cannot be read. -/
def readItems (f : Format α) (n : Nat) (bs : Bytes) : Nat → Except Error (List α × Bytes)
  | 0 => if n = 0 then .ok ([], bs) else .error .exhausted
  | fuel + 1 =>
    if n = 0 then .ok ([], bs)
    else do
      let (a, bs) ← f.read bs
      let (as, bs) ← readItems f (n - 1) bs fuel
      return (a :: as, bs)

/-- Values after their number. -/
def list (f : Format α) : Format (List α) where
  read bs := do
    let (n, bs) ← readNat 8 bs
    readItems f n bs (bs.length + 1)
  write as := littleEndian 8 as.length ++ as.flatMap f.write

/-- The constructors of a type without arguments, by their position. -/
def variants [BEq α] (known : List α) : Format α where
  read bs := do
    let (n, bs) ← readNat 4 bs
    match known[n]? with
    | some a => .ok (a, bs)
    | none => .error .badVariant
  write a := littleEndian 4 (known.idxOf a)

/-- Amounts: 32 bytes, greatest first, after their length. -/
def amount : Format Amount where
  read bs := do
    let (n, bs) ← readNat 8 bs
    let (front, bs) ← take n bs
    if n = 32 then .ok (Amount.clamp (ofLittleEndian front.reverse), bs)
    else .error (.amountLength n)
  write a := littleEndian 8 32 ++ (littleEndian 32 a.val).reverse

/-- Moments, as texts. -/
def instant : Format Instant where
  read bs := do
    let (s, bs) ← text.read bs
    match Instant.parse s with
    | .ok t => .ok (t, bs)
    | .error _ => .error .badInstant
  write t := text.write t.toText

end Format
end Binary
end WatchWallet
