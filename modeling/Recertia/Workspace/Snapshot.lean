import Recertia.Lib.LinkTree

/-! Snapshot and restore of a run's workspace between attempts (`workspace/snapshot.py`). -/
namespace Recertia.Workspace

open LinkTree

-- `fuel`: how far the system follows links before it gives up
variable (fuel : ℕ)

/-- `entry.is_dir()` of a link. -/
def linkIsDir (place : Place) (t : Tree) (p : Path) (target : String) : Bool :=
  if isAbs target then
    match place.absolute target [] with
    | .back parts => leadsToDir place t fuel [] parts
    | .away isDir => isDir
  else leadsToDir place t fuel p.dropLast (targetParts target)

/-- Whether a walk over a tree takes an entry: not a link among the directories, not an absolute
one, and not one that resolves outside. A loop raises. -/
def takes (place : Place) (t : Tree) : Path × Node → Option Bool
  | (p, .link target) =>
    if linkIsDir fuel place t p target then some false
    else if isAbs target then some false
    else
      match follow place t fuel p.dropLast (targetParts target) with
      | .inside _ => some true
      | .outside => some false
      | .loop => none
  | (_, .dir) => some true
  | (_, .file _ _) => some true

def takenOf (place : Place) (t : Tree) : List (Path × Node) → Option (List (Path × Node))
  | [] => some []
  | row :: rows => do
    let taken ← takes fuel place t row
    let rest ← takenOf place t rows
    return if taken then row :: rest else rest

/-- What both walkers take from a tree: `_copy_tree_contained` to copy it, `_sync_directory` as
`src_dirs`, `src_files` and `src_links`. -/
def containedEntries (place : Place) (t : Tree) : Option (List (Path × Node)) :=
  takenOf fuel place t t.rows

/-- `_copy_tree_contained`, into a directory that was not there. `copy2` keeps the time. -/
def copyTreeContained (place : Place) (src : Tree) : Option Tree := do
  let entries ← containedEntries fuel place src
  return entries.foldl (fun dst row => put dst row.1 row.2) Table.empty

def dirsOf (entries : List (Path × Node)) : List Path :=
  entries.filterMap fun row => if row.2 = .dir then some row.1 else none

def filesOf (entries : List (Path × Node)) : List (Path × Bytes × ℕ) :=
  entries.filterMap fun row =>
    match row.2 with
    | .file content mtime => some (row.1, content, mtime)
    | _ => none

def linksOf (entries : List (Path × Node)) : List (Path × String) :=
  entries.filterMap fun row =>
    match row.2 with
    | .link target => some (row.1, target)
    | _ => none

/-- The entries of a tree by their depth, the shallow ones first. -/
def topDown {α : Type} (depth : α → ℕ) (items : List α) : List α :=
  (List.range ((items.map depth).foldl max 0 + 1)).flatMap fun d =>
    items.filter fun item => depth item = d

/-- What a name in the workdir stands for; a regular file by its inode. -/
inductive Dirent
  | dir
  | file (inode : ℕ)
  | link (target : String)
  | special (kind : Special) (mtime : ℕ)
  deriving DecidableEq, Repr

/-- The workdir as a disk holds it: the names of an inode share its bytes and its time. -/
structure Workdir where
  names : Table Path Dirent
  data : ℕ → Bytes × ℕ

inductive Found
  | node (n : Node)
  | special (kind : Special) (mtime : ℕ)
  deriving DecidableEq, Repr

def Workdir.read (d : Workdir) : Dirent → Found
  | .dir => .node .dir
  | .file inode => .node (.file (d.data inode).1 (d.data inode).2)
  | .link target => .node (.link target)
  | .special kind mtime => .special kind mtime

/-- What is found in the workdir. -/
def Workdir.tree (d : Workdir) : Table Path Found := d.names.mapValues d.read

/-- An inode that no name has. -/
def Workdir.newInode (d : Workdir) : ℕ :=
  (d.names.rows.map fun row =>
    match row.2 with
    | .file inode => inode + 1
    | _ => 0).foldl max 0

/-- Bytes and a time for all names of an inode. -/
def Workdir.write (d : Workdir) (inode : ℕ) (content : Bytes) (mtime : ℕ) : Workdir :=
  { d with data := Function.update d.data inode (content, mtime) }

/-- A regular file of its own. -/
def Workdir.create (d : Workdir) (p : Path) (content : Bytes) (mtime : ℕ) : Workdir where
  names := put d.names p (.file d.newInode)
  data := Function.update d.data d.newInode (content, mtime)

/-- One entry of the walk over the workdir, from below. -/
def pruneEntry (entries : List (Path × Node)) (listed : Path → Bool) (t : Table Path Dirent) :
    Path × Dirent → Table Path Dirent
  | (p, .dir) => if p ∈ dirsOf entries then t else rmtree t p
  | (p, .link _) =>
    if listed p then unlink t p
    else if p ∉ (filesOf entries).map Prod.fst ∧ p ∉ (linksOf entries).map Prod.fst then unlink t p
    else if p ∈ (filesOf entries).map Prod.fst then unlink t p
    else t
  | (p, _) =>
    if p ∉ (filesOf entries).map Prod.fst ∧ p ∉ (linksOf entries).map Prod.fst then unlink t p
    else t

/-- Whether the walk from below removes what is at a path because of one of its entries. -/
def dooms (entries : List (Path × Node)) (listed : Path → Bool) : Path × Dirent → Path → Bool
  | (q, .dir), p => q ∉ dirsOf entries && q.isPrefixOf p
  | (q, .link _), p => (listed q || q ∉ (linksOf entries).map Prod.fst ||
      q ∈ (filesOf entries).map Prod.fst) && p = q
  | (q, _), p => (q ∉ (filesOf entries).map Prod.fst &&
      q ∉ (linksOf entries).map Prod.fst) && p = q

theorem get?_pruneEntry (entries : List (Path × Node)) (listed : Path → Bool)
    (t : Table Path Dirent) (row : Path × Dirent) (p : Path) :
    (pruneEntry entries listed t row).get? p =
      if dooms entries listed row p then none else t.get? p := by
  have hunlink : ∀ q, (unlink t q).get? p = if decide (p = q) then none else t.get? p := by
    intro q
    rw [get?_unlink]
    simp only [decide_eq_true_eq]
  obtain ⟨q, n⟩ := row
  cases n with
  | dir =>
    by_cases hq : q ∈ dirsOf entries
    · simp only [pruneEntry, dooms, hq, if_true, not_true_eq_false, decide_false, Bool.false_and,
        Bool.false_eq_true, if_false]
    · simp only [pruneEntry, dooms, hq, if_false, not_false_eq_true, decide_true, Bool.true_and,
        get?_rmtree, List.isPrefixOf_iff_prefix]
  | link target =>
    cases hlisted : listed q <;>
    by_cases hfile : q ∈ (filesOf entries).map Prod.fst <;>
    by_cases hlink : q ∈ (linksOf entries).map Prod.fst <;>
    simp only [pruneEntry, dooms, hlisted, hfile, hlink, not_true_eq_false, not_false_eq_true,
      and_true, and_false, and_self, if_true, if_false, decide_true, decide_false,
      Bool.or_true, Bool.or_false, Bool.false_and, Bool.true_and,
      Bool.false_eq_true, hunlink]
  | _ =>
    by_cases hfile : q ∈ (filesOf entries).map Prod.fst <;>
    by_cases hlink : q ∈ (linksOf entries).map Prod.fst <;>
    simp only [pruneEntry, dooms, hfile, hlink, not_true_eq_false, not_false_eq_true, and_true,
      true_and, and_self, if_true, if_false, decide_true, decide_false, Bool.and_false,
      Bool.false_and, Bool.true_and, Bool.false_eq_true, hunlink]

theorem get?_prune (entries : List (Path × Node)) (listed : Path → Bool)
    (rows : List (Path × Dirent)) (t : Table Path Dirent) (p : Path) :
    (rows.foldl (pruneEntry entries listed) t).get? p =
      if rows.any fun row => dooms entries listed row p then none else t.get? p := by
  induction rows generalizing t with
  | nil => rfl
  | cons row rows ih =>
    rw [List.foldl_cons, ih, get?_pruneEntry, List.any_cons]
    cases dooms entries listed row p <;>
      simp only [Bool.true_or, Bool.false_or, if_true, Bool.false_eq_true, if_false, ite_self]

/-- A link makes room for the directory; anything else would raise. -/
def makeDir (t : Table Path Dirent) (p : Path) : Option (Table Path Dirent) :=
  match t.get? p with
  | some (.file _) => none
  | some (.special _ _) => none
  | _ => some (put t p .dir)

/-- `_unchanged`, or `copy2`. That writes to the inode which is there and copies below a directory;
a special file counts as empty, and only a device can be written to. -/
def syncFile (d : Workdir) (item : Path × Bytes × ℕ) : Option Workdir :=
  match d.names.get? item.1 with
  | some (.file inode) =>
    if (d.data inode).1.length = item.2.1.length ∧ (d.data inode).2 = item.2.2 then some d
    else some (d.write inode item.2.1 item.2.2)
  | some (.special kind mtime) =>
    if item.2.1.length = 0 ∧ mtime = item.2.2 then some d
    else if kind = .device then
      some { d with names := put d.names item.1 (.special .device item.2.2) }
    else none
  | some .dir => some (d.create (item.1 ++ [item.1.getLast?.getD ""]) item.2.1 item.2.2)
  | _ => some (d.create item.1 item.2.1 item.2.2)

/-- A directory cannot be unlinked. -/
def syncLink (t : Table Path Dirent) (item : Path × String) : Option (Table Path Dirent) :=
  match t.get? item.1 with
  | some (.link old) => if old = item.2 then some t else some (put t item.1 (.link item.2))
  | some .dir => none
  | _ => some (put t item.1 (.link item.2))

/-- `_sync_directory` -/
def syncDirectory (place : Place) (listed : Path → Bool) (src : Tree) (dst : Workdir) :
    Option Workdir := do
  let entries ← containedEntries fuel place src
  let pruned := (topDown (fun row => row.1.length) dst.names.rows).reverse.foldl
    (pruneEntry entries listed) dst.names
  let made ← (topDown List.length (dirsOf entries)).foldlM makeDir pruned
  let filled ← (filesOf entries).foldlM syncFile ⟨made, dst.data⟩
  let linked ← (linksOf entries).foldlM syncLink filled.names
  return ⟨linked, filled.data⟩

/-- `WorkspaceManager.snapshot`: the tree of the new snapshot directory. -/
def snapshot (place : Place) (workdir : Option Tree) : Option Tree :=
  match workdir with
  | some t => copyTreeContained fuel place t
  | none => some Table.empty

/-- `WorkspaceManager.restore` of a snapshot that is there: what is in the workdir then. -/
def restore (place : Place) (listed : Path → Bool) (src : Tree) (workdir : Option Workdir) :
    Option (Table Path Found) :=
  match workdir with
  | none => (copyTreeContained fuel place src).map (Table.mapValues .node)
  | some dst => (syncDirectory fuel place listed src dst).map Workdir.tree

end Recertia.Workspace
