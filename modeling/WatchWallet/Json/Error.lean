import WatchWallet.Amount.Basic
import WatchWallet.Decimal.Shortest
import WatchWallet.Instant.Reader

/-!
# Json — Error

What can be wrong with a JSON text, where, and in what words.  A problem belongs to one of three
categories: the text ends too early, it is not JSON, or it is JSON of another shape.
-/

namespace WatchWallet.Json

/-- The first value met where another kind was expected. -/
inductive Found where
  | null
  | bool (b : Bool)
  | natural (n : Nat)
  /-- The integer that lies `magnitude` below zero. -/
  | negative (magnitude : Nat)
  | float (x : Double)
  | text (s : String)
  | sequence
  | map
deriving DecidableEq

/-- A value in the words of an error message. -/
def Found.describe : Found → String
  | .null => "null"
  | .bool true => "boolean `true`"
  | .bool false => "boolean `false`"
  | .natural n => "integer `" ++ String.ofList (Text.digits n) ++ "`"
  | .negative n => "integer `-" ++ String.ofList (Text.digits n) ++ "`"
  | .float x => "floating point `" ++ x.toText ++ "`"
  | .text s => "string " ++ Text.quoted s
  | .sequence => "sequence"
  | .map => "map"

/-- The three kinds of problem. -/
inductive Category where
  | eof
  | syntactic
  | data
deriving DecidableEq

/-- What is wrong with a JSON text. -/
inductive Problem where
  | endInList
  | endInObject
  | endInText
  | endInValue
  | colonMissing
  | listSeparatorMissing
  | objectSeparatorMissing
  | unknownWord
  | valueMissing
  | badEscape
  | badNumber
  | numberTooLarge
  | controlCharacter
  | badCodePoint
  | keyNotText
  | loneSurrogate
  | unpairedSurrogate
  | trailingComma
  | trailingText
  | wrongType (found : Found) (expected : String)
  | wrongValue (found : Found) (expected : String)
  | wrongLength (length : Nat) (expected : String)
  | missing (key : String)
  | duplicate (key : String)
  | unknownVariant (name : String) (known : List String)
  | amount (error : Amount.Error)
  | instant (error : Instant.Error)
deriving DecidableEq

/-- The kind of a problem. -/
def Problem.category : Problem → Category
  | .endInList | .endInObject | .endInText | .endInValue => .eof
  | .wrongType _ _ | .wrongValue _ _ | .wrongLength _ _ | .missing _ | .duplicate _
  | .unknownVariant _ _ | .amount _ | .instant _ => .data
  | _ => .syntactic

/-- The wording of a problem. -/
def Problem.message : Problem → String
  | .endInList => "EOF while parsing a list"
  | .endInObject => "EOF while parsing an object"
  | .endInText => "EOF while parsing a string"
  | .endInValue => "EOF while parsing a value"
  | .colonMissing => "expected `:`"
  | .listSeparatorMissing => "expected `,` or `]`"
  | .objectSeparatorMissing => "expected `,` or `\x7d`"
  | .unknownWord => "expected ident"
  | .valueMissing => "expected value"
  | .badEscape => "invalid escape"
  | .badNumber => "invalid number"
  | .numberTooLarge => "number out of range"
  | .controlCharacter => "control character (\\u0000-\\u001F) found while parsing a string"
  | .badCodePoint => "invalid unicode code point"
  | .keyNotText => "key must be a string"
  | .loneSurrogate => "lone leading surrogate in hex escape"
  | .unpairedSurrogate => "unexpected end of hex escape"
  | .trailingComma => "trailing comma"
  | .trailingText => "trailing characters"
  | .wrongType found expected => "invalid type: " ++ found.describe ++ ", expected " ++ expected
  | .wrongValue found expected => "invalid value: " ++ found.describe ++ ", expected " ++ expected
  | .wrongLength n expected =>
    "invalid length " ++ String.ofList (Text.digits n) ++ ", expected " ++ expected
  | .missing key => "missing field `" ++ key ++ "`"
  | .duplicate key => "duplicate field `" ++ key ++ "`"
  | .unknownVariant name known =>
    "unknown variant `" ++ name ++ "`, expected one of " ++
      String.intercalate ", " (known.map fun k => "`" ++ k ++ "`")
  | .amount e => e.message
  | .instant e => e.message

/-- A problem where a reader met it.  `rest` is the text not yet read; the place meant lies `ahead`
bytes further. -/
structure Fault where
  problem : Problem
  rest : List Char
  ahead : Nat

/-- A problem with its place: lines count from one, columns count bytes. -/
structure Error where
  problem : Problem
  line : Nat
  column : Nat
deriving DecidableEq

/-- The number of bytes that a text takes. -/
def byteLength (cs : List Char) : Nat :=
  cs.foldl (fun bytes c => bytes + c.utf8Size) 0

/-- The line and column some bytes into a text that starts at the given ones.  No place lies behind
the end of the text. -/
def placeAt (line column : Nat) : List Char → Nat → Nat × Nat
  | [], _ => (line, column)
  | c :: cs, bytes =>
    if bytes = 0 then (line, column)
    else if c = '\n' then placeAt (line + 1) 0 cs (bytes - 1)
    else placeAt line (column + min bytes c.utf8Size) cs (bytes - c.utf8Size)

/-- The place of a fault in the text that was read. -/
def Fault.locate (text : List Char) (f : Fault) : Error :=
  let (line, column) := placeAt 1 0 text (byteLength text - byteLength f.rest + f.ahead)
  ⟨f.problem, line, column⟩

/-- The wording of an error. -/
def Error.message (e : Error) : String :=
  e.problem.message ++ " at line " ++ String.ofList (Text.digits e.line) ++ " column " ++
    String.ofList (Text.digits e.column)

end WatchWallet.Json
