import WatchWallet.Explorer.Basic
import WatchWallet.Explorer.Served
import WatchWallet.Text.Lossy
import WatchWallet.Text.Percent

/-!
# Explorer — Client

An explorer reached by web requests.  How a request travels is left to a `Transport`; the client
says what is asked for and reads what comes back.  The status 404 means that the thing asked for is
not there, any other status without success is an error.
-/

namespace WatchWallet

/-- A reply to a web request. -/
structure Reply where
  status : Nat
  /-- The body; none if it did not arrive whole. -/
  body : Option Bytes

/-- A way to send a request for a path and wait for the reply.  Without a connection there is
none. -/
abbrev Transport (σ : Type) := String → σ → Option Reply × σ

/-- A client of an explorer. -/
structure Client where
  /-- Where the explorer is, without a slash at the end. -/
  base : String
  currency : String

namespace Client

/-- The client of an explorer at an address. -/
def ofAddress (address currency : String) : Client where
  base := String.ofList (address.toList.reverse.dropWhile (· == '/')).reverse
  currency := currency

/-- The address of a resource, with the values of its query. -/
def address (c : Client) (resource : String) (query : List (String × String)) : String :=
  let values := query.map fun (name, value) => Text.queryValue name ++ '=' :: Text.queryValue value
  let tail := if query.isEmpty then [] else '?' :: (['&'].intercalate values)
  let path := Text.pathPart ("/blockchain/v2/" ++ c.currency ++ "/" ++ resource)
  c.base ++ String.ofList (path ++ tail)

/-- A body read as JSON. -/
def decodeBody {α : Type} (format : Json.Format α) (body : Bytes) : Except Json.Error α :=
  match String.fromUTF8? (ByteArray.mk body.toArray) with
  | some s => format.decode s
  | none =>
    match format.decode (Text.lossy body) with
    | .error e => .error e
    | .ok _ => .error ⟨.badCodePoint, 1, body.length⟩

/-- What a reply holds; nothing if the thing is not there. -/
def read {α : Type} (format : Json.Format α) (reply? : Option Reply) :
    Except ExplorerError (Option α) :=
  match reply? with
  | none => .error .noConnection
  | some reply =>
    if reply.status = 404 then .ok none
    else if reply.status < 200 ∨ 300 ≤ reply.status then
      .error (.status reply.status (Text.lossy (reply.body.getD [])))
    else
      match reply.body with
      | none => .error .noConnection
      | some body => ((decodeBody format body).map some).mapError .malformed

variable {σ α : Type}

/-- Asks for a resource. -/
def get (c : Client) (transport : Transport σ) (format : Json.Format α) (resource : String)
    (query : List (String × String)) (s : σ) : Except ExplorerError (Option α) × σ :=
  let (reply?, s) := transport (c.address resource query) s
  (read format reply?, s)

/-- Addresses as a part of a path. -/
def addressList (addresses : List String) : String :=
  "addresses/" ++ String.intercalate "," addresses

/-- Asks for the transactions of addresses; no addresses have none. -/
def transactions (c : Client) (transport : Transport σ) (addresses : List String)
    (start : Option String) (s : σ) : Except ExplorerError Answer × σ :=
  if addresses.isEmpty then (.ok ⟨[], false⟩, s)
  else
    let query := ("noToken", "true") :: (start.map fun hash => ("blockHash", hash)).toList
    let (result, s) := c.get transport ServedAnswer.json
      (addressList addresses ++ "/transactions") query s
    (result.bind fun
      | some answer => .ok ⟨answer.records, answer.truncated⟩
      | none =>
        -- that nothing is there is said of the block, if one was named
        match start with
        | some hash => .error (.blockNotFound hash)
        | none => .error .noData, s)

/-- Asks for the block at the tip. -/
def tip (c : Client) (transport : Transport σ) (s : σ) : Except ExplorerError Block × σ :=
  let (result, s) := c.get transport ServedBlock.json "blocks/current" [] s
  (result.bind fun
    | some block => .ok block.record
    | none => .error .noData, s)

/-- Asks for the block at a height. -/
def block (c : Client) (transport : Transport σ) (height : Nat) (s : σ) :
    Except ExplorerError (Option Block) × σ :=
  let (result, s) :=
    c.get transport ServedBlock.json ("blocks/" ++ String.ofList (Text.digits height)) [] s
  (result.map (·.map (·.record)), s)

/-- Asks for the unconfirmed transactions of addresses; no addresses have none. -/
def pending (c : Client) (transport : Transport σ) (addresses : List String) (s : σ) :
    Except ExplorerError (List Transaction) × σ :=
  if addresses.isEmpty then (.ok [], s)
  else
    let (result, s) := c.get transport (.list ServedTransaction.json)
      (addressList addresses ++ "/transactions/pending") [] s
    (result.map fun txs => (txs.getD []).map (·.record), s)

/-- The client as an explorer. -/
def explorer (c : Client) (transport : Transport σ) : Explorer σ where
  delay s := (0, s)
  transactions := c.transactions transport
  tip := c.tip transport
  block := c.block transport
  pending := c.pending transport

end Client
end WatchWallet
