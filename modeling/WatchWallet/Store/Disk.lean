import WatchWallet.Error

/-!
# Store — Disk

A file system as a value: what stands at each path, and what the next changes will come to.  A
change may be refused, or leave a file torn, holding only the front of what was written.
-/

namespace WatchWallet

/-- The names from the root to a file or directory. -/
abbrev Path := List String

/-- What stands at a path. -/
inductive Node where
  | file (content : Bytes)
  | directory
deriving DecidableEq

/-- What becomes of a change. -/
inductive Outcome where
  | done
  /-- The change fails and leaves everything as it was. -/
  | refused
  /-- The write fails after this many bytes. -/
  | torn (kept : Nat)
deriving DecidableEq

/-- A file system.  Every path stands in the list at most once; the root is a directory. -/
structure Disk where
  nodes : List (Path × Node)
  /-- What becomes of the next changes to files; all later ones are done. -/
  outcomes : List Outcome

namespace Disk

/-- Nothing but the root, and no change fails. -/
def empty : Disk := ⟨[], []⟩

/-- What stands at a path, if anything. -/
def node? (d : Disk) (path : Path) : Option Node :=
  if path = [] then some .directory else d.nodes.lookup path

/-- Puts something at a path, in place of what stood there. -/
def put (d : Disk) (path : Path) (node : Node) : Disk :=
  { d with nodes := (path, node) :: d.nodes.filter (·.1 != path) }

/-- Takes away what stands at a path. -/
def drop (d : Disk) (path : Path) : Disk :=
  { d with nodes := d.nodes.filter (·.1 != path) }

/-- What becomes of the next change, and the disk after it is decided. -/
def nextOutcome (d : Disk) : Outcome × Disk :=
  match d.outcomes with
  | [] => (.done, d)
  | o :: os => (o, { d with outcomes := os })

/-- A path and those that lead to it, the root first. -/
def ancestors (path : Path) : List Path :=
  (List.range (path.length + 1)).map path.take

/-- Why a file cannot be at a path: the path to it leads through no directory. -/
def parentError? (d : Disk) (path : Path) : Option DiskError :=
  match d.node? path.dropLast with
  | some .directory => none
  | some (.file _) => some .notADirectory
  | none => if (ancestors path.dropLast).any (isFile d) then some .notADirectory else some .notFound
where
  isFile (d : Disk) (p : Path) : Bool :=
    match d.node? p with
    | some (.file _) => true
    | _ => false

/-- Makes a directory, if it is missing, where another directory stands. -/
def createDirectory (d : Disk) (path : Path) : Except DiskError Disk :=
  match d.node? path with
  | some .directory => .ok d
  | some (.file _) => .error .notADirectory
  | none => .ok (d.put path .directory)

/-- Makes a directory and those that lead to it. -/
def createDirectories (d : Disk) (path : Path) : Except DiskError Disk :=
  (ancestors path).foldlM createDirectory d

/-- The names in a directory, in ascending order. -/
def list (d : Disk) (path : Path) : Except DiskError (List String) :=
  match d.node? path with
  | none => .error .notFound
  | some (.file _) => .error .notADirectory
  | some .directory =>
    .ok ((d.nodes.filterMap fun (p, _) =>
      if p ≠ [] ∧ p.dropLast = path then p.getLast? else none).mergeSort fun a b => !(b < a))

/-- The content of a file. -/
def read (d : Disk) (path : Path) : Except DiskError Bytes :=
  match d.node? path with
  | some (.file content) => .ok content
  | some .directory => .error .isADirectory
  | none => .error ((d.parentError? path).getD .notFound)

/-- The content of a file that holds a text. -/
def readText (d : Disk) (path : Path) : Except DiskError String := do
  match String.fromUTF8? (ByteArray.mk (← d.read path).toArray) with
  | some s => .ok s
  | none => .error .notText

/-- Writes a file, new or in place of the old. -/
def write (d : Disk) (path : Path) (content : Bytes) : Except DiskError Unit × Disk :=
  match d.parentError? path, d.node? path with
  | some e, _ => (.error e, d)
  | none, some .directory => (.error .isADirectory, d)
  | none, _ =>
    match d.nextOutcome with
    | (.done, d) => (.ok (), d.put path (.file content))
    | (.refused, d) => (.error .refused, d)
    | (.torn kept, d) => (.error .refused, d.put path (.file (content.take kept)))

/-- Removes a file. -/
def removeFile (d : Disk) (path : Path) : Except DiskError Unit × Disk :=
  match d.node? path with
  | none => (.error ((d.parentError? path).getD .notFound), d)
  | some .directory => (.error .isADirectory, d)
  | some (.file _) =>
    match d.nextOutcome with
    | (.done, d) => (.ok (), d.drop path)
    | (_, d) => (.error .refused, d)

/-- Removes what stands at a path and everything below it. -/
def removeTree (d : Disk) (path : Path) : Disk :=
  { d with nodes := d.nodes.filter fun (p, _) => !path.isPrefixOf p }

end Disk
end WatchWallet
