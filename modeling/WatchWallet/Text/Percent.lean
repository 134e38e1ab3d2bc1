/-!
# Text — Percent

Texts inside a web address.  What cannot stand there is written byte by byte as a percent sign and
two digits in base sixteen, upper case.  In the value of a query a space is written as a plus sign.
-/

namespace WatchWallet.Text

/-- A digit in base sixteen, upper case. -/
def upperHexDigit (n : Nat) : Char :=
  (Nat.digitChar n).toUpper

/-- A byte as a percent sign and two digits. -/
def percentByte (b : UInt8) : List Char :=
  ['%', upperHexDigit (b.toNat / 16), upperHexDigit (b.toNat % 16)]

/-- A character byte by byte. -/
def percentChar (c : Char) : List Char :=
  (String.singleton c).toUTF8.toList.flatMap percentByte

/-- A text as a part of a path. -/
def pathPart (s : String) : List Char :=
  s.toList.flatMap fun c => if isPlain c then [c] else percentChar c
where
  isPlain (c : Char) : Bool :=
    ' ' < c && c.toNat < 0x7F && ['"', '#', '<', '>', '?', '\x60', '\x7b', '\x7d'].all (· != c)

/-- A text as the value in a query. -/
def queryValue (s : String) : List Char :=
  s.toList.flatMap fun c =>
    if c = ' ' then ['+'] else if isPlain c then [c] else percentChar c
where
  isPlain (c : Char) : Bool :=
    c.isAlphanum || ['*', '-', '.', '_'].contains c

end WatchWallet.Text
