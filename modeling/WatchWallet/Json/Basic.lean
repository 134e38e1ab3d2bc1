import WatchWallet.Text.Digits
import WatchWallet.Text.Quoted

/-!
# Json — Basic

The JSON values that records are written as, and their two layouts: `compact`, on one line without
spaces, and `pretty`, one item a line, two spaces deeper at each level.
-/

namespace WatchWallet

/-- A JSON value as this library writes it.  Members keep their order. -/
inductive Json where
  | null
  | bool (b : Bool)
  | number (n : Nat)
  | text (s : String)
  | array (items : List Json)
  | object (members : List (String × Json))

namespace Json

/-- One character inside a JSON text: the quote, the backslash and controls are escaped. -/
def escapeChar (c : Char) : List Char :=
  match c with
  | '"' => ['\\', '"']
  | '\\' => ['\\', '\\']
  | '\x08' => ['\\', 'b']
  | '\x0c' => ['\\', 'f']
  | '\n' => ['\\', 'n']
  | '\r' => ['\\', 'r']
  | '\t' => ['\\', 't']
  | c => if c.toNat < 0x20 then ['\\', 'u'] ++ Text.padLeft 4 (Text.hexDigits c.toNat) else [c]

/-- A JSON text with its quotes. -/
def escape (s : String) : List Char :=
  '"' :: s.toList.flatMap escapeChar ++ ['"']

mutual

/-- A value on one line. -/
def compact : Json → List Char
  | .null => ['n', 'u', 'l', 'l']
  | .bool true => ['t', 'r', 'u', 'e']
  | .bool false => ['f', 'a', 'l', 's', 'e']
  | .number n => Text.digits n
  | .text s => escape s
  | .array items => '[' :: compactItems items ++ [']']
  | .object members => '\x7b' :: compactMembers members ++ ['\x7d']

/-- Items between commas. -/
def compactItems : List Json → List Char
  | [] => []
  | [v] => compact v
  | v :: w :: vs => compact v ++ ',' :: compactItems (w :: vs)

/-- Members between commas. -/
def compactMembers : List (String × Json) → List Char
  | [] => []
  | [(k, v)] => escape k ++ ':' :: compact v
  | (k, v) :: m :: ms => escape k ++ ':' :: compact v ++ ',' :: compactMembers (m :: ms)

end

/-- A new line at a depth. -/
def newLine (depth : Nat) : List Char :=
  '\n' :: List.replicate (2 * depth) ' '

mutual

/-- A value over several lines, its own lines starting at `depth`. -/
def layout (depth : Nat) : Json → List Char
  | .array [] => ['[', ']']
  | .object [] => ['\x7b', '\x7d']
  | .array (v :: vs) => '[' :: layoutItems depth (v :: vs) ++ newLine depth ++ [']']
  | .object (m :: ms) => '\x7b' :: layoutMembers depth (m :: ms) ++ newLine depth ++ ['\x7d']
  | .null => compact .null
  | .bool b => compact (.bool b)
  | .number n => compact (.number n)
  | .text s => compact (.text s)

/-- Items on lines of their own, one level deeper. -/
def layoutItems (depth : Nat) : List Json → List Char
  | [] => []
  | [v] => newLine (depth + 1) ++ layout (depth + 1) v
  | v :: w :: vs =>
    newLine (depth + 1) ++ layout (depth + 1) v ++ ',' :: layoutItems depth (w :: vs)

/-- Members on lines of their own, one level deeper. -/
def layoutMembers (depth : Nat) : List (String × Json) → List Char
  | [] => []
  | [(k, v)] => newLine (depth + 1) ++ escape k ++ ':' :: ' ' :: layout (depth + 1) v
  | (k, v) :: m :: ms =>
    newLine (depth + 1) ++ escape k ++ ':' :: ' ' :: layout (depth + 1) v ++ ',' ::
      layoutMembers depth (m :: ms)

end

/-- The value over several lines. -/
def pretty (v : Json) : List Char :=
  layout 0 v

/-- The value as a text on one line. -/
def toText (v : Json) : String :=
  String.ofList (compact v)

end Json
end WatchWallet
