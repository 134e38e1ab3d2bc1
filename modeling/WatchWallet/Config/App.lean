import WatchWallet.Config.Basic

/-!
# Config — App

The configuration file of the command line program.  A configuration that loads is valid.
-/

namespace WatchWallet

/-- The configuration of the command line program. -/
structure AppConfig where
  explorerUrl : String
  currency : String
  requestTimeoutSecs : UInt64
  dataDir : String
  receiveAddresses : List String
  changeAddresses : List String
  /-- The decimal places that amounts are shown with. -/
  decimals : UInt32
  sync : SyncConfig
deriving DecidableEq

namespace AppConfig

/-- The members as nested pairs. -/
def parts (c : AppConfig) : String × String × UInt64 × String × List String × List String ×
    UInt32 × SyncConfig × Unit :=
  (c.explorerUrl, c.currency, c.requestTimeoutSecs, c.dataDir, c.receiveAddresses,
    c.changeAddresses, c.decimals, c.sync, ())

/-- The value with these members. -/
def ofParts : String × String × UInt64 × String × List String × List String × UInt32 ×
    SyncConfig × Unit → AppConfig
  | (explorerUrl, currency, requestTimeoutSecs, dataDir, receiveAddresses, changeAddresses,
      decimals, sync, ()) =>
    ⟨explorerUrl, currency, requestTimeoutSecs, dataDir, receiveAddresses, changeAddresses,
      decimals, sync⟩

/-- The JSON form. -/
def json : Json.Format AppConfig :=
  Json.Members.format (.cons ⟨"explorerUrl", .text, .required, []⟩
    (.cons ⟨"currency", .text, .required, []⟩
    (.cons ⟨"requestTimeoutSecs", .uint64, .defaulted 30, []⟩
    (.cons ⟨"dataDir", .path, .required, []⟩
    (.cons ⟨"receiveAddresses", .list .text, .required, []⟩
    (.cons ⟨"changeAddresses", .list .text, .defaulted [], []⟩
    (.cons ⟨"decimals", .uint32, .defaulted 8, []⟩
    (.cons ⟨"synchronizer", SyncConfig.json, .required, []⟩ .nil)))))))) "AppConfig" ofParts parts

/-- The configuration in a text. -/
def parse (s : String) : Except ConfigError AppConfig := do
  let c ← (json.decode s).mapError .malformed
  c.sync.validate
  return c

/-- The configuration in a file, none being a file that is missing. -/
def load (file? : Option Bytes) : Except ConfigError AppConfig :=
  match file?.bind fun bytes => String.fromUTF8? (ByteArray.mk bytes.toArray) with
  | some s => parse s
  | none => .error .unreadable

end AppConfig
end WatchWallet
