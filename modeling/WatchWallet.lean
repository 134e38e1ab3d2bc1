import WatchWallet.Text.Blank
import WatchWallet.Text.Quoted
import WatchWallet.Text.Digits
import WatchWallet.Amount.Basic
import WatchWallet.Amount.Display
import WatchWallet.Instant.Date
import WatchWallet.Instant.Basic
import WatchWallet.Instant.Reader
import WatchWallet.Decimal.Double
import WatchWallet.Decimal.Shortest
import WatchWallet.Json.Basic
import WatchWallet.Json.Scan
import WatchWallet.Json.Format
import WatchWallet.Record.Format
import WatchWallet.Trust
import WatchWallet.Utxo.Format
import WatchWallet.Config.App
import WatchWallet.Checkpoint
import WatchWallet.Keychain.Batch
import WatchWallet.Window.Tracker
import WatchWallet.Window.Packed
import WatchWallet.Window.Buckets
import WatchWallet.Window.Progress
import WatchWallet.Event
import WatchWallet.Store.BlockStore
import WatchWallet.Store.CheckpointStore
import WatchWallet.Schedule
import WatchWallet.Journal
import WatchWallet.Window.Synchronize
import WatchWallet.Explorer.Simulated
import WatchWallet.Account.Passes
import WatchWallet.Account.Pass
import WatchWallet.Account.Report
import WatchWallet.Main
import WatchWallet.Proofs.Window.Completeness
import WatchWallet.Proofs.Account.Convergence
import WatchWallet.Proofs.Account.Reopening
import WatchWallet.Proofs.Window.Gathering
import WatchWallet.Proofs.Window.Failure
import WatchWallet.Proofs.Window.GapLimit
import WatchWallet.Proofs.Window.Interleaving
import WatchWallet.Proofs.Window.Truncation
import WatchWallet.Proofs.Window.Acceptance
import WatchWallet.Proofs.Account.Checkpointing
import WatchWallet.Proofs.Account.Overlap
import WatchWallet.Proofs.Account.Durability
import WatchWallet.Proofs.Store.Refinement
import WatchWallet.Proofs.Store.Removal
import WatchWallet.Proofs.Binary.Delimited
import WatchWallet.Proofs.Account.Passes
import WatchWallet.Proofs.Store.CrashSafety
import WatchWallet.Proofs.Account.Events
import WatchWallet.Proofs.Json.Records
import WatchWallet.Proofs.Account.Repeated
import WatchWallet.Proofs.Utxo.Origin
import WatchWallet.Proofs.Amount.Routes
import WatchWallet.Proofs.Amount.Display
import WatchWallet.Proofs.Keychain.Tiling
import WatchWallet.Proofs.Window.Winner
import WatchWallet.Proofs.Window.Unfinished
import WatchWallet.Proofs.Window.Relay
import WatchWallet.Proofs.Window.Buffer
