import WatchWallet.Json.Error

/-!
# Json — Scan

The lexical side of reading JSON: blanks, words, texts, numbers, and values that are passed over.
Every scanner takes what it reads from the front of a text and stops at the first problem.
-/

namespace WatchWallet.Json

/-- A reader of values of one type. -/
abbrev Reader (α : Type) := List Char → Except Fault (α × List Char)

/-- A fault at the place reached. -/
def Problem.at (p : Problem) (rest : List Char) : Fault := ⟨p, rest, 0⟩

/-- A fault at the next byte, which is the first of a character. -/
def Problem.before (p : Problem) (rest : List Char) : Fault := ⟨p, rest, 1⟩

/-- The four blanks of JSON. -/
def isBlank (c : Char) : Bool :=
  c == ' ' || c == '\n' || c == '\t' || c == '\r'

/-- A text without the blanks in front of it. -/
def skipBlank (cs : List Char) : List Char :=
  cs.dropWhile isBlank

/-- The rest of a word whose first letter is read. -/
def readWord : List Char → List Char → Except Fault (List Char)
  | [], cs => .ok cs
  | _ :: _, [] => .error (Problem.endInValue.at [])
  | w :: ws, c :: cs =>
    if c = w then readWord ws cs else .error (Problem.unknownWord.before (c :: cs))

/-- The colon after a name. -/
def readColon (cs : List Char) : Except Fault (List Char) :=
  match skipBlank cs with
  | [] => .error (Problem.endInObject.before [])
  | ':' :: r => .ok r
  | r => .error (Problem.colonMissing.before r)

/-! ### Texts -/

/-- The value of a hexadecimal digit. -/
def hexValue? (c : Char) : Option Nat :=
  if '0' ≤ c ∧ c ≤ '9' then some (c.toNat - '0'.toNat)
  else if 'a' ≤ c ∧ c ≤ 'f' then some (c.toNat - 'a'.toNat + 10)
  else if 'A' ≤ c ∧ c ≤ 'F' then some (c.toNat - 'A'.toNat + 10)
  else none

/-- The value of four hexadecimal digits. -/
def hexUnit? (a b c d : Char) : Option Nat := do
  let a ← hexValue? a
  let b ← hexValue? b
  let c ← hexValue? c
  let d ← hexValue? d
  return ((a * 16 + b) * 16 + c) * 16 + d

/-- No four hexadecimal digits are in front: the next four bytes are a bad escape, or the text ends
before them. -/
def badUnit (rest : List Char) : Fault :=
  if byteLength rest < 4 then Problem.endInText.at [] else ⟨.badEscape, rest, 4⟩

/-- What a letter means after a backslash. -/
def escaped? (c : Char) : Option Char :=
  match c with
  | '"' => some '"'
  | '\\' => some '\\'
  | '/' => some '/'
  | 'b' => some '\x08'
  | 'f' => some '\x0c'
  | 'n' => some '\n'
  | 'r' => some '\r'
  | 't' => some '\t'
  | _ => none

/-- The character of two surrogates. -/
def ofSurrogates (high low : Nat) : Char :=
  Char.ofNat (0x10000 + (high - 0xD800) * 0x400 + (low - 0xDC00))

/-- The characters of a text up to its closing quote.  Surrogates must come in pairs. -/
def readChars : List Char → Except Fault (List Char × List Char)
  | [] => .error (Problem.endInText.at [])
  | '"' :: r => .ok ([], r)
  | '\\' :: [] => .error (Problem.endInText.at [])
  | '\\' :: 'u' :: a :: b :: c :: d :: r =>
    match hexUnit? a b c d with
    | none => .error (badUnit (a :: b :: c :: d :: r))
    | some n =>
      if 0xDC00 ≤ n ∧ n ≤ 0xDFFF then .error (Problem.loneSurrogate.at r)
      else if 0xD800 ≤ n ∧ n ≤ 0xDBFF then
        match r with
        | '\\' :: 'u' :: e :: f :: g :: h :: r =>
          match hexUnit? e f g h with
          | none => .error (badUnit (e :: f :: g :: h :: r))
          | some m =>
            if 0xDC00 ≤ m ∧ m ≤ 0xDFFF then
              (readChars r).map fun (cs, rest) => (ofSurrogates n m :: cs, rest)
            else .error (Problem.loneSurrogate.at r)
        | '\\' :: 'u' :: r => .error (badUnit r)
        | '\\' :: c :: r => .error (Problem.unpairedSurrogate.before (c :: r))
        | ['\\'] => .error (Problem.endInText.at [])
        | c :: r => .error (Problem.unpairedSurrogate.before (c :: r))
        | [] => .error (Problem.endInText.at [])
      else (readChars r).map fun (cs, rest) => (Char.ofNat n :: cs, rest)
  | '\\' :: 'u' :: r => .error (badUnit r)
  | '\\' :: c :: r =>
    match escaped? c with
    | none => .error (Problem.badEscape.before (c :: r))
    | some e => (readChars r).map fun (cs, rest) => (e :: cs, rest)
  | c :: r =>
    if c.toNat < 0x20 then .error (Problem.controlCharacter.at r)
    else (readChars r).map fun (cs, rest) => (c :: cs, rest)

/-- A text whose opening quote is read. -/
def readText : Reader String := fun cs =>
  (readChars cs).map fun (cs, rest) => (String.ofList cs, rest)

/-- Passes over a text whose opening quote is read; surrogates may stand alone. -/
def skipText : List Char → Except Fault (List Char)
  | [] => .error (Problem.endInText.at [])
  | '"' :: r => .ok r
  | '\\' :: [] => .error (Problem.endInText.at [])
  | '\\' :: 'u' :: a :: b :: c :: d :: r =>
    match hexUnit? a b c d with
    | none => .error (badUnit (a :: b :: c :: d :: r))
    | some _ => skipText r
  | '\\' :: 'u' :: r => .error (badUnit r)
  | '\\' :: c :: r =>
    match escaped? c with
    | none => .error (Problem.badEscape.before (c :: r))
    | some _ => skipText r
  | c :: r => if c.toNat < 0x20 then .error (Problem.controlCharacter.at (c :: r)) else skipText r

/-! ### Numbers -/

/-- A number as a literal gives it.  Integers beyond 64 bits and the negative zero are floats. -/
inductive Literal where
  | natural (n : Nat)
  /-- The integer that lies `magnitude` below zero; the magnitude is not zero. -/
  | negative (magnitude : Nat)
  | float (x : Double)

/-- A number as the value that was met. -/
def Literal.found : Literal → Found
  | .natural n => .natural n
  | .negative n => .negative n
  | .float x => .float x

/-- Appends digits to a number while it stays below the bound; gives the number and how many digits
it took. -/
def gather (bound : Nat) : Nat → List Char → Nat × Nat
  | n, [] => (n, 0)
  | n, c :: cs =>
    if 10 * n + Text.digitValue c < bound then
      let (m, taken) := gather bound (10 * n + Text.digitValue c) cs
      (m, taken + 1)
    else (n, 0)

/-- The float with these digits and this power of ten. -/
def floatLiteral (positive : Bool) (digits : Nat) (power : Int) (rest : List Char) :
    Except Fault (Literal × List Char) :=
  match Double.ofScaled? digits power with
  | none => .error (Problem.numberTooLarge.at rest)
  | some x => .ok (.float { x with negative := !positive }, rest)

/-- The exponent of a float, its letter read.  An exponent beyond 31 bits makes zero of a number or
is too large, whatever its other digits. -/
def readExponent (positive : Bool) (digits : Nat) (power : Int) (cs : List Char) :
    Except Fault (Literal × List Char) :=
  let (up, cs) :=
    match cs with
    | '+' :: r => (true, r)
    | '-' :: r => (false, r)
    | r => (true, r)
  match cs with
  | [] => .error (Problem.endInValue.at [])
  | c :: r =>
    if Text.isDigit c then
      let run := cs.takeWhile Text.isDigit
      let rest := cs.drop run.length
      let (e, taken) := gather (Nat.pow 2 31) 0 run
      if taken = run.length then
        floatLiteral positive digits (if up then power + e else power - e) rest
      else if digits ≠ 0 ∧ up then .error (Problem.numberTooLarge.at (cs.drop (taken + 1)))
      else .ok (.float ⟨!positive, 0, Double.minExponent⟩, rest)
    else .error (Problem.badNumber.before (c :: r))

/-- The fraction of a float, its point read.  Digits beyond 64 bits are dropped. -/
def readFraction (positive : Bool) (digits : Nat) (power : Int) (cs : List Char) :
    Except Fault (Literal × List Char) :=
  let run := cs.takeWhile Text.isDigit
  match run, cs with
  | [], [] => .error (Problem.endInValue.before [])
  | [], cs => .error (Problem.badNumber.before cs)
  | run, cs =>
    let (digits, taken) := gather UInt64.size digits run
    let power := power - taken
    match cs.drop run.length with
    | 'e' :: r | 'E' :: r => readExponent positive digits power r
    | r => floatLiteral positive digits power r

/-- An integer of 64 bits, with its sign. -/
def integerLiteral (positive : Bool) (n : Nat) : Literal :=
  if positive then .natural n
  else if n ≠ 0 ∧ n ≤ Nat.pow 2 63 then .negative n
  else .float { (Double.ofRatio? n 1).getD ⟨true, 0, Double.minExponent⟩ with negative := true }

/-- A number whose sign is read. -/
def readLiteral (positive : Bool) (cs : List Char) : Except Fault (Literal × List Char) :=
  match cs with
  | [] => .error (Problem.endInValue.at [])
  | c :: r =>
    let run := cs.takeWhile Text.isDigit
    if run = [] then .error (Problem.badNumber.before cs)
    else if c = '0' ∧ 1 < run.length then .error (Problem.badNumber.before r)
    else
      let (n, taken) := gather UInt64.size 0 run
      let power := run.length - taken
      match cs.drop run.length with
      | '.' :: r => readFraction positive n power r
      | 'e' :: r | 'E' :: r => readExponent positive n power r
      | r =>
        if power = 0 then .ok (integerLiteral positive n, r) else floatLiteral positive n power r

/-- Passes over an exponent, its letter read. -/
def skipExponent (cs : List Char) : Except Fault (List Char) :=
  let cs :=
    match cs with
    | '+' :: r | '-' :: r => r
    | r => r
  match cs with
  | [] => .error (Problem.badNumber.at [])
  | c :: r =>
    if Text.isDigit c then .ok (r.dropWhile Text.isDigit)
    else .error (Problem.badNumber.before (c :: r))

/-- Passes over a number whose sign is read, of any size.  A number that breaks off is bad, not an
early end. -/
def skipNumber (cs : List Char) : Except Fault (List Char) :=
  match cs with
  | [] => .error (Problem.badNumber.at [])
  | c :: r =>
    let run := cs.takeWhile Text.isDigit
    if run = [] then .error (Problem.badNumber.before cs)
    else if c = '0' ∧ 1 < run.length then .error (Problem.badNumber.before r)
    else
      match cs.drop run.length with
      | '.' :: r =>
        let places := r.takeWhile Text.isDigit
        if places = [] then .error (Problem.badNumber.before r)
        else
          match r.drop places.length with
          | 'e' :: r | 'E' :: r => skipExponent r
          | r => .ok r
      | 'e' :: r | 'E' :: r => skipExponent r
      | r => .ok r

/-! ### Values of no interest -/

/-- A bracket that is open. -/
inductive Frame where
  | list
  | object

/-- The text ends inside this bracket. -/
def Frame.ended : Frame → Problem
  | .list => .endInList
  | .object => .endInObject

/-- Neither a comma nor the end follows an item. -/
def Frame.separatorMissing : Frame → Problem
  | .list => .listSeparatorMissing
  | .object => .objectSeparatorMissing

/-- The bracket that closes a list or an object. -/
def Frame.close : Frame → Char
  | .list => ']'
  | .object => '\x7d'

/-- The name of a member and its colon. -/
def skipKey (cs : List Char) : Except Fault (List Char) :=
  match skipBlank cs with
  | [] => .error (Problem.endInObject.before [])
  | '"' :: r => do readColon (← skipText r)
  | r => .error (Problem.keyNotText.before r)

mutual

/-- Passes over a value inside the open brackets, and over what follows it up to their ends. -/
def skipNested (frames : List Frame) (cs : List Char) : Nat → Except Fault (List Char)
  | 0 => .error (Problem.endInValue.at cs)
  | fuel + 1 =>
    match skipBlank cs with
    | [] => .error (Problem.endInValue.before [])
    | 'n' :: r => do skipAfter true frames (← readWord ['u', 'l', 'l'] r) fuel
    | 't' :: r => do skipAfter true frames (← readWord ['r', 'u', 'e'] r) fuel
    | 'f' :: r => do skipAfter true frames (← readWord ['a', 'l', 's', 'e'] r) fuel
    | '"' :: r => do skipAfter true frames (← skipText r) fuel
    | '-' :: r => do skipAfter true frames (← skipNumber r) fuel
    | '[' :: r => skipAfter false (.list :: frames) r fuel
    | '\x7b' :: r => skipAfter false (.object :: frames) r fuel
    | c :: r =>
      if Text.isDigit c then do skipAfter true frames (← skipNumber (c :: r)) fuel
      else .error (Problem.valueMissing.before (c :: r))

/-- Passes over what follows an item, or an opening bracket when `item` is false. -/
def skipAfter (item : Bool) (frames : List Frame) (cs : List Char) : Nat → Except Fault (List Char)
  | 0 => .error (Problem.endInValue.at cs)
  | fuel + 1 =>
    match frames with
    | [] => .ok cs
    | frame :: outer =>
      match skipBlank cs with
      | [] => .error (frame.ended.before [])
      | c :: r =>
        if c = frame.close then skipAfter true outer r fuel
        else if item ∧ c ≠ ',' then .error (frame.separatorMissing.before (c :: r))
        else
          let next := if item then r else c :: r
          match frame with
          | .list => skipNested (frame :: outer) next fuel
          | .object => do skipNested (frame :: outer) (← skipKey next) fuel

end

/-- Passes over a value.  Every step takes a character or is the last, so the length bounds the
steps. -/
def skipValue (cs : List Char) : Except Fault (List Char) :=
  skipNested [] cs (2 * cs.length + 2)

/-! ### A value of the wrong kind -/

/-- What is wrong where something else was expected: the value found, unless it is no value. -/
def mismatch (expected : String) (cs : List Char) : Fault :=
  match cs with
  | [] => Problem.endInValue.before []
  | 'n' :: r => word ['u', 'l', 'l'] .null r
  | 't' :: r => word ['r', 'u', 'e'] (.bool true) r
  | 'f' :: r => word ['a', 'l', 's', 'e'] (.bool false) r
  | '"' :: r =>
    match readText r with
    | .ok (s, r) => (Problem.wrongType (.text s) expected).at r
    | .error e => e
  | '-' :: r => number false r
  | '[' :: _ => (Problem.wrongType .sequence expected).at cs
  | '\x7b' :: _ => (Problem.wrongType .map expected).at cs
  | c :: _ => if Text.isDigit c then number true cs else Problem.valueMissing.before cs
where
  word (letters : List Char) (found : Found) (r : List Char) : Fault :=
    match readWord letters r with
    | .ok r => (Problem.wrongType found expected).at r
    | .error e => e
  number (positive : Bool) (r : List Char) : Fault :=
    match readLiteral positive r with
    | .ok (l, r) => (Problem.wrongType l.found expected).at r
    | .error e => e

end WatchWallet.Json
