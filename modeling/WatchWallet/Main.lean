import Std.Time.DateTime.Timestamp
import WatchWallet.Account.Pass
import WatchWallet.Account.Report
import WatchWallet.Config.App
import WatchWallet.Explorer.Recording

/-!
# Main

The command line: one synchronization of the account in a configuration file.  Each request to the
explorer is printed as a line, and its reply is read as a line.  The pass itself is run on the
replies so far, from the start, until none is missing.  The log goes to the error output.
-/

namespace WatchWallet.CommandLine

/-- The environment variable that names the configuration file. -/
def configVariable : String := "WALLET_SYNC_CONFIG"

/-- The directory of the block files on the disk. -/
def storeDir : Path := ["stable"]

/-- The file that lists the files in the directory of the block files. -/
def indexName : String := "index"

/-- The name of a level in the log. -/
def levelText : LogLevel → String
  | .debug => "DEBUG"
  | .info => "INFO"
  | .warning => "WARN"
  | .error => "ERROR"

/-- Prints a line of the log; details are left out. -/
def log (l : LogLine) : IO Unit :=
  if l.level = .debug then return () else IO.eprintln (levelText l.level ++ " " ++ l.text)

/-- The content of a file, if it can be read. -/
def readFile? (name : String) : IO (Option Bytes) := do
  try
    return some (← IO.FS.readBinFile name).toList
  catch _ =>
    return none

/-- The name of a place on the disk inside the data directory. -/
def placeName (dataDir : String) (path : Path) : String :=
  String.intercalate "/" (dataDir :: path)

/-- The disk that the data directory holds. -/
def loadDisk (dataDir : String) : IO Disk := do
  let index := (← readFile? (placeName dataDir (storeDir ++ [indexName]))).getD []
  let names := ((String.fromUTF8? (ByteArray.mk index.toArray)).getD "").splitOn "\n"
  let nodes ← names.filterMapM fun name => do
    let path := storeDir ++ [name]
    return (← readFile? (placeName dataDir path)).map fun content => (path, Node.file content)
  return ⟨(storeDir, .directory) :: nodes, []⟩

/-- Puts a file of the disk into the data directory. -/
def saveFile (dataDir : String) (path : Path) (content : Bytes) : IO Unit :=
  IO.FS.writeBinFile (placeName dataDir path) (ByteArray.mk content.toArray)

/-- Puts the disk into the data directory. -/
def saveDisk (dataDir : String) (disk : Disk) : IO Unit := do
  IO.FS.createDirAll (placeName dataDir storeDir)
  for (path, node) in disk.nodes do
    match node with
    | .file content => saveFile dataDir path content
    | .directory => pure ()
  let names := (disk.list storeDir).toOption.getD []
  saveFile dataDir (storeDir ++ [indexName]) (String.intercalate "\n" names).toUTF8.toList

/-- The account of a configuration with the blocks on the disk. -/
def openAccount (config : AppConfig) (disk : Disk) : Except SyncError Account :=
  let (opened, disk) := FileStore.openAt storeDir disk
  opened.map fun store =>
    { config := config.sync
      chains := ⟨.ofList config.receiveAddresses 0, .ofList config.changeAddresses 0⟩
      stable := .file store
      unstable := .memory .empty
      pending := []
      checkpoints := .file storeDir
      disk
      journal := [] }

/-- Asks for a reply. -/
def fetch (address : String) : IO (Option Reply) := do
  IO.println ("GET " ++ address)
  (← IO.getStdout).flush
  let line ← (← IO.getStdin).getLine
  return Reply.ofLine? (String.ofList (line.toList.filter (· != '\n')))

/-- Runs the pass on the replies so far, until none is missing. -/
partial def synchronize (client : Client) (account : Account) (now : Instant)
    (replies : List (Option Reply)) : IO (Except Stop SyncStats × Account) := do
  let (result, after, recording) :=
    (Action.synchronize (client.explorer Recording.transport) now).perform account
      (.ofReplies replies)
  match recording.missing with
  | none => return (result, after)
  | some address => synchronize client account now (replies ++ [← fetch address])

/-- The current moment, to the second. -/
def now : IO Instant := do
  let seconds := (← Std.Time.Timestamp.now).toSecondsSinceUnixEpoch.val
  return (Instant.ofUnixSeconds? seconds).getD Instant.epoch

/-- One synchronization, with the report after it. -/
def run (configFile? : Option String) : IO (Except String Unit) := do
  let some configFile := configFile?
    | return .error ("Configuration error: usage: watch-wallet <config.json> (or set " ++
        configVariable ++ ")")
  match AppConfig.load (← readFile? configFile) with
  | .error e => return .error (SyncError.config e).message
  | .ok config =>
    log ⟨.info, "Starting account synchronization against " ++ config.explorerUrl⟩
    match openAccount config (← loadDisk config.dataDir) with
    | .error e => return .error e.message
    | .ok account =>
      let client := Client.ofAddress config.explorerUrl config.currency
      let (result, after) ← synchronize client account (← now) []
      for event in after.journal.events do
        log event.logLine
      saveDisk config.dataDir after.disk
      match result with
      | .error (.failed e) => return .error (SyncError.sync e.message).message
      | .error .overflow => throw (IO.userError "attempt to add with overflow")
      | .ok stats =>
        log ⟨.info, stats.summary⟩
        for line in (after.report stats.tip config.decimals.toNat).lines do
          log line
        return .ok ()

end WatchWallet.CommandLine

/-- Synchronizes the account of the configuration file that is named by the first argument or by the
environment. -/
def main (args : List String) : IO UInt32 := do
  let configFile? ← match args with
    | name :: _ => pure (some name)
    | [] => IO.getEnv WatchWallet.CommandLine.configVariable
  match ← WatchWallet.CommandLine.run configFile? with
  | .ok () => return 0
  | .error e =>
    WatchWallet.CommandLine.log ⟨.error, "Account synchronization failed: " ++ e⟩
    return 1
