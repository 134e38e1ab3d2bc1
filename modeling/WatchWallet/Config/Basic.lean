import WatchWallet.Binary.Format
import WatchWallet.Json.Format

/-!
# Config — Basic

What a synchronization is run with, and the rules that a configuration must meet before it is used:
positive widths of batches and gaps, and the hash of a first block.
-/

namespace WatchWallet

/-- The tuning of the synchronization of one account. -/
structure SyncConfig where
  /-- How many blocks at the tip may still be replaced. -/
  unstableDepth : UInt32
  /-- The greatest number of addresses in a request. -/
  batchSize : UInt32
  /-- The number of addresses looked at past the last used one. -/
  gapSize : UInt32
  /-- The number of transactions at which the explorer cuts an answer. -/
  pageSize : UInt32
  /-- The hash of the block at height 0. -/
  genesisHash : String
deriving DecidableEq

/-- Why a configuration cannot be used. -/
inductive ConfigError where
  /-- The file cannot be read as text. -/
  | unreadable
  /-- The text is no configuration. -/
  | malformed (error : Json.Error)
  | zeroBatchSize
  | zeroGapSize
  | noGenesisHash
deriving DecidableEq

/-- The wording of a configuration error. -/
def ConfigError.message : ConfigError → String
  | .unreadable => "Failed to read"
  | .malformed e => "Invalid configuration: " ++ e.message
  | .zeroBatchSize => "maxNumberOfAddressesInRequest must be positive"
  | .zeroGapSize => "discoveryGapSize must be positive"
  | .noGenesisHash => "genesisBlockHash must not be empty"

namespace SyncConfig

/-- The first rule that the configuration breaks. -/
def validate (c : SyncConfig) : Except ConfigError Unit :=
  if c.batchSize = 0 then .error .zeroBatchSize
  else if c.gapSize = 0 then .error .zeroGapSize
  else if c.genesisHash = "" then .error .noGenesisHash
  else .ok ()

/-- A configuration that meets every rule. -/
structure Valid (c : SyncConfig) : Prop where
  batchSize_pos : 0 < c.batchSize.toNat
  gapSize_pos : 0 < c.gapSize.toNat
  genesisHash_ne : c.genesisHash ≠ ""

theorem validate_eq_ok_iff {c : SyncConfig} : c.validate = .ok () ↔ c.Valid := by
  have zero_iff (n : UInt32) : n = 0 ↔ n.toNat = 0 := by
    rw [← UInt32.toNat_inj]; rfl
  unfold validate
  constructor
  · intro h
    split at h
    · simp at h
    · split at h
      · simp at h
      · split at h
        · simp at h
        · rename_i hb hg hn
          exact ⟨by rw [zero_iff] at hb; omega, by rw [zero_iff] at hg; omega, hn⟩
  · intro h
    have hb := h.batchSize_pos
    have hg := h.gapSize_pos
    rw [if_neg (by rw [zero_iff]; omega), if_neg (by rw [zero_iff]; omega), if_neg h.genesisHash_ne]

/-- The members as nested pairs. -/
def parts (c : SyncConfig) : UInt32 × UInt32 × UInt32 × UInt32 × String × Unit :=
  (c.unstableDepth, c.batchSize, c.gapSize, c.pageSize, c.genesisHash, ())

/-- The value with these members. -/
def ofParts : UInt32 × UInt32 × UInt32 × UInt32 × String × Unit → SyncConfig
  | (unstableDepth, batchSize, gapSize, pageSize, genesisHash, ()) =>
    ⟨unstableDepth, batchSize, gapSize, pageSize, genesisHash⟩

/-- The JSON form. -/
def json : Json.Format SyncConfig :=
  Json.Members.format (.cons ⟨"maxPossibleUnstableBlocks", .uint32, .required, []⟩
    (.cons ⟨"maxNumberOfAddressesInRequest", .uint32, .required, []⟩
    (.cons ⟨"discoveryGapSize", .uint32, .required, []⟩
    (.cons ⟨"maxTransactionPerResponse", .uint32, .required, ["maxTransactionPerResponce"]⟩
    (.cons ⟨"genesisBlockHash", .text, .required, []⟩ .nil))))) "SynchronizerConfig" ofParts parts

/-- The binary form. -/
def binary : Binary.Format SyncConfig :=
  (Binary.Format.uint32.pair (Binary.Format.uint32.pair (Binary.Format.uint32.pair
    (Binary.Format.uint32.pair (Binary.Format.text.pair .unit))))).map ofParts parts

end SyncConfig
end WatchWallet
