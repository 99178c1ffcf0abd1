import Recertia.Lib.TarArchive

/-! Backup, verification and restore of a home tree (`ops/backup.py`). Backups of one run are all
in one manifest, which the archive carries as its last member. -/
namespace Recertia.Ops

open LinkTree TarArchive

def manifestName : String := "MANIFEST.json"

def tenantLockName : String := ".tenant.lock"

/-- `_is_lock_file`, of a relative path by its parts. -/
def isLockFile (parts : List String) : Bool :=
  parts = [".lock"] || parts = ["api.lock"] || parts = [tenantLockName] ||
    parts = ["jobs", tenantLockName] ||
    (parts.take 1 = ["runs"] &&
      (parts.drop 2 = [tenantLockName] || parts.drop 2 = ["jobs", tenantLockName]))

def nameOf (p : Path) : String := p.getLast?.getD ""

/-- `Path.suffix`: what follows the last dot of a name, which neither starts nor ends it. -/
def suffix (name : String) : List Char :=
  let chars := name.toList
  let ext := (chars.reverse.takeWhile (· ≠ '.')).reverse
  if ext ≠ [] ∧ ext.length + 1 < chars.length then '.' :: ext else []

def isSqliteDb (p : Path) : Bool :=
  suffix (nameOf p) = ".sqlite".toList || suffix (nameOf p) = ".db".toList

def isSqliteSidecar (p : Path) : Bool :=
  "-wal".toList.isSuffixOf (nameOf p).toList || "-shm".toList.isSuffixOf (nameOf p).toList

/-- `_normalized_member`, which takes a backslash for a separator. -/
def normalizedMember (p : Path) : List String :=
  p.flatMap fun part =>
    ((part.toList.splitOn '\\').map String.ofList).filter fun s => s ≠ "" && s ≠ "."

/-- The bytes of a text that `str.encode` takes. -/
def encode (text : String) : Bytes := text.toUTF8.data.toList

/-- SQLite: what a main file and the log beside it hold, and the snapshot of the backup API. It
cannot give a destination that keeps a log the pages of another size, and `open_db` has switched
the new destination to its log. -/
structure Sqlite where
  Logical : Type
  logical : Bytes → Option Bytes → Option Logical
  pageSize : Bytes → Option Bytes → ℕ
  /-- that of a new database -/
  newPageSize : ℕ
  onlineBackup : Bytes → Option Bytes → Option Bytes
  onlineBackup_none : ∀ main wal, logical main wal = none → onlineBackup main wal = none
  onlineBackup_resized : ∀ main wal, pageSize main wal ≠ newPageSize → onlineBackup main wal = none
  onlineBackup_some : ∀ main wal held, logical main wal = some held →
    pageSize main wal = newPageSize →
    ∃ snapshot, onlineBackup main wal = some snapshot ∧ logical snapshot none = some held

/-- A database that the backup API copies. -/
structure Sqlite.Copied (sqlite : Sqlite) (main : Bytes) (wal : Option Bytes) : Prop where
  database : sqlite.logical main wal ≠ none
  pages : sqlite.pageSize main wal = sqlite.newPageSize

/-- One line of the manifest. -/
structure Entry (Digest : Type) where
  path : Path
  sha256 : Digest
  bytes : ℕ

/-- The members but the manifest, and what the manifest lists. -/
structure Archive (Digest : Type) where
  members : List Member
  files : List (Entry Digest)

structure Setting (Digest : Type) where
  sqlite : Sqlite
  sha256 : Bytes → Digest
  manifestBytes : List (Entry Digest) → Bytes
  /-- The characters that stand for a byte of a name that is not UTF-8. -/
  escapes : Char → Bool
  /-- Whether a lock file that is a link can be opened. -/
  opensLink : String → Bool
  filter : Filter
  place : Place
  fuel : ℕ

/-- The log that SQLite reads with a main file. -/
def walOf (t : Tree) (p : Path) : Option Bytes :=
  match t.get? (p.dropLast ++ [nameOf p ++ "-wal"]) with
  | some (.file content _) => some content
  | _ => none

variable {Digest : Type} (s : Setting Digest)

/-- Whether `str.encode` takes the text. -/
def Setting.encodes (text : String) : Bool := !text.toList.any s.escapes

/-- Whether `RootLock` opens a lock file of the root, which creates one that is not there. -/
def opensLock (t : Tree) (name : String) : Bool :=
  match t.get? [name] with
  | none | some (.file _ _) => true
  | some .dir => false
  | some (.link target) => s.opensLink target

/-- What is not archived by its name. -/
def leavesOut (p : Path) : Bool := p = [manifestName] || isLockFile p || isSqliteSidecar p

/-- What `backup_tree` adds for one path, or nothing where it raises. -/
def archiveOne (home : Disk) : Path × Node → Option (List (Path × Stat))
  | (_, .dir) => some []
  | (p, .file content mtime) =>
    if leavesOut p then some []
    else if isSqliteDb p then
      (s.sqlite.onlineBackup content (walOf home.rooted.tree p)).map fun snapshot =>
        [(p, .sole snapshot)]
    else some [(p, home.stat p (.file content mtime))]
  | (p, .link target) =>
    if leavesOut p then some [] else if s.encodes target then some [(p, .link target)] else none

/-- The loop of `backup_tree`. -/
def archiveAll (home : Disk) : List (Path × Node) → Option (List (Path × Stat))
  | [] => some []
  | row :: rows => do
    let added ← archiveOne s home row
    let rest ← archiveAll home rows
    some (added ++ rest)

def archiveRows (home : Disk) : Option (List (Path × Stat)) :=
  archiveAll s home (home.rooted.tree.rows.insertionSort fun a b => a.1 ≤ b.1)

/-- `_payload_bytes`, where it does not raise -/
def payload : Stat → Bytes
  | .file _ content => content
  | .sole content => content
  | .link target => encode target
  | _ => []

def Archive.all (archive : Archive Digest) : List Member :=
  archive.members ++ [⟨[manifestName], .reg (s.manifestBytes archive.files)⟩]

variable [DecidableEq Digest]

omit [DecidableEq Digest]

/-- An empty directory once the locks of its root are held. -/
def lockedRoot : Tree := put (put .empty ["api.lock"] (.file [] 0)) [".lock"] (.file [] 0)

end Recertia.Ops
