import WatchWallet.Binary.Format
import WatchWallet.Config.Basic

/-!
# Error

What can go wrong while an account is synchronized, by cause, and the wording of each cause.
-/

namespace WatchWallet

/-- Why an explorer request failed. -/
inductive ExplorerError where
  /-- No whole answer came back. -/
  | noConnection
  /-- The body of the answer is not what was asked for. -/
  | malformed (error : Json.Error)
  | status (code : Nat) (body : String)
  /-- The explorer does not know the block, named by its hash or its height. -/
  | blockNotFound (block : String)
  | noData
  | transport (reason : String)
deriving DecidableEq

/-- The wording of an explorer error. -/
def ExplorerError.message : ExplorerError → String
  | .noConnection => "HTTP error: error sending request"
  | .malformed e => "JSON parse error: " ++ e.message
  | .status code body =>
    "Explorer returned status " ++ String.ofList (Text.digits code) ++ ": " ++ body
  | .blockNotFound block => "Block not found: " ++ block
  | .noData => "No data returned"
  | .transport reason => "Transport error: " ++ reason

/-- How an answer of the explorer breaks its contract. -/
inductive Violation where
  /-- A block below the start of the request. -/
  | belowStart (hash : String) (height start : Nat)
  /-- A cut answer that may hold only a part of its single height. -/
  | singleHeight (height : Nat)
deriving DecidableEq

/-- The wording of a violation. -/
def Violation.message : Violation → String
  | .belowStart hash height start =>
    "block " ++ hash ++ " at height " ++ String.ofList (Text.digits height) ++
      " returned for a request starting at height " ++ String.ofList (Text.digits start)
  | .singleHeight height =>
    "truncated response holds the single height " ++ String.ofList (Text.digits height)

/-- Why a file operation failed. -/
inductive DiskError where
  | notFound
  | notADirectory
  | isADirectory
  /-- The medium did not take the change. -/
  | refused
  /-- The content is no text. -/
  | notText
deriving DecidableEq

/-- The wording of a file error. -/
def DiskError.message : DiskError → String
  | .notFound => "No such file or directory (os error 2)"
  | .notADirectory => "Not a directory (os error 20)"
  | .isADirectory => "Is a directory (os error 21)"
  | .refused => "Input/output error (os error 5)"
  | .notText => "stream did not contain valid UTF-8"

/-- Why a store failed. -/
inductive StorageError where
  | createDirectory (error : DiskError)
  | listDirectory (error : DiskError)
  | writeBlock (file : String) (error : DiskError)
  | removeBlock (file : String) (error : DiskError)
  | readCheckpoint (error : DiskError)
  | writeCheckpoint (error : DiskError)
  | parseCheckpoint (error : Json.Error)
deriving DecidableEq

/-- The wording of a storage error. -/
def StorageError.message : StorageError → String
  | .createDirectory e => "Failed to create directory: " ++ e.message
  | .listDirectory e => "Failed to read directory: " ++ e.message
  | .writeBlock file e =>
    "Failed to write block file " ++ Text.quoted file ++ ": " ++ e.message
  | .removeBlock file e =>
    "Failed to remove block file " ++ Text.quoted file ++ ": " ++ e.message
  | .readCheckpoint e => "Failed to read checkpoint file: " ++ e.message
  | .writeCheckpoint e => "Failed to write checkpoint file: " ++ e.message
  | .parseCheckpoint e => "Failed to parse checkpoint file: " ++ e.message

/-- Why a synchronization failed. -/
inductive SyncError where
  | explorer (error : ExplorerError)
  | protocolViolation (violation : Violation)
  | storage (error : StorageError)
  /-- A block file cannot be read. -/
  | io (error : DiskError)
  | config (error : ConfigError)
  | sync (reason : String)
deriving DecidableEq

/-- The wording of a synchronization error. -/
def SyncError.message : SyncError → String
  | .explorer e => "Explorer error: " ++ e.message
  | .protocolViolation v => "Explorer protocol violation: " ++ v.message
  | .storage e => "Storage error: " ++ e.message
  | .io e => "IO error: " ++ e.message
  | .config e => "Configuration error: " ++ e.message
  | .sync reason => "Sync error: " ++ reason

/-- Whether the explorer cannot be trusted for the rest of the pass. -/
def SyncError.isProtocolViolation : SyncError → Bool
  | .protocolViolation _ => true
  | _ => false

/-- What ends a synchronization before its time. -/
inductive Stop where
  | failed (error : SyncError)
  /-- A position or a height is not a number of 32 bits.  A build with overflow checks stops at the
  sum, and nothing is flushed, told or handed out any more; one without them goes on with the low
  bits of the sum, and then no position or height can be relied on. -/
  | overflow
deriving DecidableEq

end WatchWallet
