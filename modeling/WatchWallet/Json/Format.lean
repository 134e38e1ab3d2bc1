import WatchWallet.Json.Basic
import WatchWallet.Json.Scan

/-!
# Json — Format

A `Format` reads and writes the values of one type.  Records are put together from `Members`: they
are written as objects, in the order of their members, and read from objects in any order or from
lists in that order.  Unknown names are passed over; a name that comes twice is an error.
-/

namespace WatchWallet.Json

/-- How the values of a type are read and written. -/
structure Format (α : Type) where
  read : Reader α
  write : α → Json

namespace Format

variable {α β : Type}

/-- The value of a whole text; only blanks may follow it. -/
def decodeChars (f : Format α) (cs : List Char) : Except Fault α := do
  let (a, rest) ← f.read cs
  match skipBlank rest with
  | [] => .ok a
  | rest => .error (Problem.trailingText.before rest)

/-- The value of a whole text. -/
def decode (f : Format α) (s : String) : Except Error α :=
  (f.decodeChars s.toList).mapError (·.locate s.toList)

/-- The text of a value, on one line. -/
def encode (f : Format α) (a : α) : String :=
  (f.write a).toText

/-- A format for another type with the same values. -/
def map (f : Format α) (build : α → β) (back : β → α) : Format β where
  read cs := (f.read cs).map fun (a, rest) => (build a, rest)
  write b := f.write (back b)

/-- Texts; `name` is the name of their type in messages. -/
def textNamed (name : String) : Format String where
  read cs :=
    match skipBlank cs with
    | '"' :: r => readText r
    | r => .error (mismatch name r)
  write := .text

/-- Texts. -/
def text : Format String :=
  textNamed "a string"

/-- Paths of files and directories. -/
def path : Format String :=
  textNamed "path string"

/-- The truth values. -/
def bool : Format Bool where
  read cs :=
    match skipBlank cs with
    | 't' :: r => do return (true, ← readWord ['r', 'u', 'e'] r)
    | 'f' :: r => do return (false, ← readWord ['a', 'l', 's', 'e'] r)
    | r => .error (mismatch "a boolean" r)
  write := .bool

/-- A literal as a natural number below a bound. -/
def literalBelow (bound : Nat) (name : String) (l : Literal) (rest : List Char) :
    Except Fault (Nat × List Char) :=
  match l with
  | .natural n =>
    if n < bound then .ok (n, rest) else .error ((Problem.wrongValue (.natural n) name).at rest)
  | .negative n => .error ((Problem.wrongValue (.negative n) name).at rest)
  | .float x => .error ((Problem.wrongType (.float x) name).at rest)

/-- Reads a natural number below a bound; `name` is the name of its type in messages. -/
def readBelow (bound : Nat) (name : String) : Reader Nat := fun cs =>
  match skipBlank cs with
  | [] => .error (Problem.endInValue.before [])
  | '-' :: r => do
    let (l, rest) ← readLiteral false r
    literalBelow bound name l rest
  | c :: r =>
    if Text.isDigit c then do
      let (l, rest) ← readLiteral true (c :: r)
      literalBelow bound name l rest
    else .error (mismatch name (c :: r))

/-- Words of 32 bits. -/
def uint32 : Format UInt32 where
  read cs := (readBelow UInt32.size "u32" cs).map fun (n, rest) => (UInt32.ofNat n, rest)
  write n := .number n.toNat

/-- Words of 64 bits. -/
def uint64 : Format UInt64 where
  read cs := (readBelow UInt64.size "u64" cs).map fun (n, rest) => (UInt64.ofNat n, rest)
  write n := .number n.toNat

/-- A value or `null`. -/
def option (f : Format α) : Format (Option α) where
  read cs :=
    match skipBlank cs with
    | [] => .error (Problem.endInValue.before [])
    | 'n' :: r => do return (none, ← readWord ['u', 'l', 'l'] r)
    | r => (f.read r).map fun (a, rest) => (some a, rest)
  write
    | none => .null
    | some a => f.write a

/-- The names of the constructors of a type without arguments.  A name is also read from an object
with that single name and the value `null`. -/
def variants [BEq α] (known : List (String × α)) : Format α where
  read cs :=
    match skipBlank cs with
    | [] => .error (Problem.endInValue.before [])
    | '"' :: r => do
      let (name, r) ← readText r
      lookUp name r
    | '\x7b' :: r => do
      let (name, r) ← readName (skipBlank r)
      let (a, r) ← lookUp name r
      let r ← readColon r
      let r ← readUnit (skipBlank r)
      match skipBlank r with
      | [] => .error (Problem.endInObject.at [])
      | '\x7d' :: r => .ok (a, r)
      | r => .error (Problem.valueMissing.at r)
    | r => .error (Problem.valueMissing.before r)
  write a := .text (((known.find? fun (_, b) => a == b).map Prod.fst).getD "")
where
  lookUp (name : String) (rest : List Char) : Except Fault (α × List Char) :=
    match known.lookup name with
    | some a => .ok (a, rest)
    | none => .error ((Problem.unknownVariant name (known.map Prod.fst)).at rest)
  readName (cs : List Char) : Except Fault (String × List Char) :=
    match cs with
    | '"' :: r => readText r
    | [] => .error (Problem.endInObject.before [])
    | r => .error (Problem.keyNotText.before r)
  readUnit (cs : List Char) : Except Fault (List Char) :=
    match cs with
    | 'n' :: r => readWord ['u', 'l', 'l'] r
    | r => .error (mismatch "unit" r)

end Format

/-! ### Lists -/

/-- Where the next item of a list starts, if there is one; at the end the bracket is not taken. -/
def nextItem (first : Bool) (cs : List Char) : Except Fault (Option (List Char)) :=
  match skipBlank cs with
  | [] => .error (Problem.endInList.before [])
  | ']' :: _ => .ok none
  | c :: r =>
    if first then .ok (some (c :: r))
    else if c = ',' then
      match skipBlank r with
      | [] => .error (Problem.endInValue.before [])
      | ']' :: r => .error (Problem.trailingComma.before (']' :: r))
      | r => .ok (some r)
    else .error (Problem.listSeparatorMissing.before (c :: r))

/-- The end of a list after its last item. -/
def endList (cs : List Char) : Except Fault (List Char) :=
  match skipBlank cs with
  | [] => .error (Problem.endInList.before [])
  | ']' :: r => .ok r
  | ',' :: r =>
    match skipBlank r with
    | ']' :: r => .error (Problem.trailingComma.before (']' :: r))
    | r => .error (Problem.trailingText.before r)
  | r => .error (Problem.trailingText.before r)

/-- The items of a list, its bracket read.  Every item takes a character, so the length of the text
bounds their number. -/
def readItems {α : Type} (read : Reader α) (first : Bool) (cs : List Char) :
    Nat → Except Fault (List α × List Char)
  | 0 => .error (Problem.endInList.before cs)
  | fuel + 1 => do
    match ← nextItem first cs with
    | none => return ([], ← endList cs)
    | some r =>
      let (a, r) ← read r
      let (as, r) ← readItems read false r fuel
      return (a :: as, r)

/-- Lists. -/
def Format.list {α : Type} (f : Format α) : Format (List α) where
  read cs :=
    match skipBlank cs with
    | [] => .error (Problem.endInValue.before [])
    | '[' :: r => readItems f.read true r (r.length + 1)
    | r => .error (mismatch "a sequence" r)
  write as := .array (as.map f.write)

/-! ### Records -/

/-- What stands for a member that is not given. -/
inductive Presence (α : Type) where
  | required
  /-- The name may be missing from an object. -/
  | optional (default : α)
  /-- The name may be missing from an object, and the item from the end of a list. -/
  | defaulted (default : α)

/-- One member of a record. -/
structure Member (α : Type) where
  key : String
  format : Format α
  presence : Presence α := .required
  /-- Other names that are read for the same member. -/
  aliases : List String := []

/-- Whether a name means this member. -/
def Member.isNamed {α : Type} (m : Member α) (name : String) : Bool :=
  m.key == name || m.aliases.contains name

/-- The members of a record, with the type of their values together. -/
inductive Members : Type → Type 1 where
  | nil : Members Unit
  | cons {α τ : Type} (head : Member α) (tail : Members τ) : Members (α × τ)

namespace Members

/-- The values of the members read so far. -/
def Slots : {τ : Type} → Members τ → Type
  | _, nil => Unit
  | _, @cons α _ _ tail => Option α × tail.Slots

/-- No member is read yet. -/
def vacant : {τ : Type} → (ms : Members τ) → ms.Slots
  | _, nil => ()
  | _, cons _ tail => (none, tail.vacant)

/-- The number of members. -/
def size : {τ : Type} → Members τ → Nat
  | _, nil => 0
  | _, cons _ tail => tail.size + 1

/-- The members of an object, in order. -/
def write : {τ : Type} → Members τ → τ → List (String × Json)
  | _, nil, _ => []
  | _, cons head tail, (a, rest) => (head.key, head.format.write a) :: tail.write rest

/-- The text after a closing bracket, if that comes next. -/
def afterClose (close : Char) (cs : List Char) : List Char :=
  match skipBlank cs with
  | [] => []
  | c :: r => if c = close then r else c :: r

/-- Reads the value of the named member into its slot; none when the record has no such member. -/
def take? (name : String) (cs : List Char) : {τ : Type} → (ms : Members τ) → ms.Slots →
    Option (Except Fault (ms.Slots × List Char))
  | _, nil, _ => none
  | _, @cons α _ head tail, slots =>
    let (slot, slots) : Option α × tail.Slots := slots
    if head.isNamed name then
      match slot with
      | some _ => some (.error ((Problem.duplicate head.key).at (afterClose '\x7d' cs)))
      | none => some do
        let (a, r) ← head.format.read (← readColon cs)
        return ((some a, slots), r)
    else
      (tail.take? name cs slots).map fun result => result.map fun (slots, r) => ((slot, slots), r)

/-- Where the next name of an object starts, its quote read, if there is one; at the end the bracket
is not taken. -/
def nextName (first : Bool) (cs : List Char) : Except Fault (Option (List Char)) :=
  match skipBlank cs with
  | [] => .error (Problem.endInObject.before [])
  | '\x7d' :: _ => .ok none
  | c :: r =>
    if first then
      if c = '"' then .ok (some r) else .error (Problem.keyNotText.before (c :: r))
    else if c = ',' then
      match skipBlank r with
      | [] => .error (Problem.endInValue.before [])
      | '"' :: r => .ok (some r)
      | '\x7d' :: r => .error (Problem.trailingComma.before ('\x7d' :: r))
      | r => .error (Problem.keyNotText.before r)
    else .error (Problem.objectSeparatorMissing.before (c :: r))

/-- The members of an object up to its bracket.  Every member takes a character, so the length of
the text bounds their number. -/
def readSlots {τ : Type} (ms : Members τ) (first : Bool) (slots : ms.Slots) (cs : List Char) :
    Nat → Except Fault (ms.Slots × List Char)
  | 0 => .error (Problem.endInObject.before cs)
  | fuel + 1 => do
    match ← nextName first cs with
    | none => return (slots, cs)
    | some r =>
      let (name, r) ← readText r
      match ms.take? name r slots with
      | some result =>
        let (slots, r) ← result
        readSlots ms false slots r fuel
      | none =>
        let r ← skipValue (← readColon r)
        readSlots ms false slots r fuel

/-- The values of all members, unless a required one is missing. -/
def complete : {τ : Type} → (ms : Members τ) → ms.Slots → Except Problem τ
  | _, nil, _ => .ok ()
  | _, @cons α _ head tail, slots => do
    let (slot, slots) : Option α × tail.Slots := slots
    let a ←
      match slot, head.presence with
      | some a, _ => .ok a
      | none, .optional a => .ok a
      | none, .defaulted a => .ok a
      | none, .required => .error (.missing head.key)
    return (a, ← tail.complete slots)

/-- The members as the items of a list, after `index` of them. -/
def readItems (expected : String) (index : Nat) (first : Bool) :
    {τ : Type} → Members τ → List Char → Except Fault (τ × List Char)
  | _, nil, cs => .ok ((), cs)
  | _, cons head tail, cs => do
    match ← nextItem first cs with
    | some r =>
      let (a, r) ← head.format.read r
      let (as, r) ← tail.readItems expected (index + 1) false r
      return ((a, as), r)
    | none =>
      match head.presence with
      | .defaulted a =>
        let (as, r) ← tail.readItems expected (index + 1) first cs
        return ((a, as), r)
      | _ => .error ((Problem.wrongLength index expected).at (afterClose ']' cs))

/-- A record with these members, called `name` in messages. -/
def format {τ ρ : Type} (ms : Members τ) (name : String) (build : τ → ρ) (parts : ρ → τ) :
    Format ρ where
  read cs :=
    match skipBlank cs with
    | [] => .error (Problem.endInValue.before [])
    | '[' :: r => do
      let (a, r) ← ms.readItems (expectedItems ms.size) 0 true r
      return (build a, ← endList r)
    | '\x7b' :: r => do
      let (slots, r) ← ms.readSlots true ms.vacant r (r.length + 1)
      let r := afterClose '\x7d' r
      match ms.complete slots with
      | .ok a => .ok (build a, r)
      | .error p => .error (p.at r)
    | r => .error (mismatch ("struct " ++ name) r)
  write a := .object (ms.write (parts a))
where
  expectedItems (n : Nat) : String :=
    "struct " ++ name ++ " with " ++ String.ofList (Text.digits n) ++
      (if n = 1 then " element" else " elements")

end Members

/-! ### Amounts and moments -/

/-- What an amount may be read from. -/
def amountForms : String :=
  "a decimal amount string, an unsigned integer or 32 big-endian bytes"

/-- A literal as an amount. -/
def amountOfLiteral (l : Literal) (rest : List Char) : Except Fault (Amount × List Char) :=
  match l with
  | .natural n =>
    match Amount.ofNat? n with
    | some a => .ok (a, rest)
    | none => .error ((Problem.wrongValue (.natural n) amountForms).at rest)
  | .negative n => .error ((Problem.amount (.negative n)).at rest)
  | .float x => .error ((Problem.wrongType (.float x) amountForms).at rest)

/-- Amounts: written as a text in base ten, read from such a text or from an integer of 64 bits. -/
def Format.amount : Format Amount where
  read cs :=
    match skipBlank cs with
    | [] => .error (Problem.endInValue.before [])
    | '"' :: r => do
      let (s, r) ← readText r
      match Amount.parse s with
      | .ok a => .ok (a, r)
      | .error e => .error ((Problem.amount e).at r)
    | '-' :: r => do
      let (l, r) ← readLiteral false r
      amountOfLiteral l r
    | c :: r =>
      if Text.isDigit c then do
        let (l, r) ← readLiteral true (c :: r)
        amountOfLiteral l r
      else .error (mismatch amountForms (c :: r))
  write a := .text a.toText

/-- Moments, as texts. -/
def Format.instant : Format Instant where
  read cs :=
    match skipBlank cs with
    | '"' :: r => do
      let (s, r) ← readText r
      match Instant.parse s with
      | .ok t => .ok (t, r)
      | .error e => .error ((Problem.instant e).at r)
    | r => .error (mismatch "an RFC 3339 formatted date and time string" r)
  write t := .text t.toText

end WatchWallet.Json
