import Recertia.Lib.Table
import Recertia.Operation.Replay

/-! The import of `checkpoints.db` and `operations.db` into `runtime.db`, with the points at which it
can fail. -/
namespace Recertia.Persistence

open Json Operation

structure CheckpointKey where
  runId : String
  seq : Int
  deriving DecidableEq, Repr

structure CheckpointRow where
  node : String
  nextNode : Option String
  stateJson : String
  createdAt : String
  fencingToken : Option Int
  deriving DecidableEq, Repr

/-- The primary key of the first generation of `operations`. -/
structure BaselineKey where
  runId : String
  attemptNo : Int
  node : String
  opSeq : Int
  deriving DecidableEq, Repr

structure OperationKey extends BaselineKey where
  incarnation : Int
  deriving DecidableEq, Repr

/-- A missing `fencing_token` column reads as `NULL`. -/
structure OperationRow where
  resultJson : String
  fencingToken : Option Int
  deriving DecidableEq, Repr

/-- The `operations` table in its generations; a missing `incarnation` column reads as 1. A database
is opened through the migrations before anything rebuilds the table, so a rebuild that was
interrupted behind its `DROP TABLE operations` finds the baseline migration recorded. -/
inductive OperationsTable
  | missing
  | baseline (rows : Table BaselineKey (Int × OperationRow))
  | live (rows : Table OperationKey OperationRow)
  /-- only `operations_rel3` is there -/
  | interrupted (rel3 : Table OperationKey OperationRow)

def baselineRow (row : BaselineKey × Int × OperationRow) : OperationKey × OperationRow :=
  (⟨row.1, row.2.1⟩, row.2.2)

theorem nodup_baselineRows (rows : Table BaselineKey (Int × OperationRow)) :
    ((rows.rows.map baselineRow).map Prod.fst).Nodup := by
  apply List.Nodup.of_map OperationKey.toBaselineKey
  rw [List.map_map, List.map_map]
  exact rows.nodup

/-- `_ensure_live_operations` -/
def OperationsTable.rebuilt : OperationsTable → Table OperationKey OperationRow
  | .missing => .empty
  | .baseline rows => ⟨rows.rows.map baselineRow, nodup_baselineRows rows⟩
  | .live rows => rows
  | .interrupted rel3 => rel3

/-- The rows that the import selects from a legacy file, which it does not rebuild. -/
def OperationsTable.selected : OperationsTable → List (OperationKey × OperationRow)
  | .missing | .interrupted _ => []
  | .baseline rows => rows.rows.map baselineRow
  | .live rows => rows.rows

/-- The rows of `runtime.db` that an import is about. -/
structure Rows where
  checkpoints : Table CheckpointKey CheckpointRow
  operations : Table OperationKey OperationRow

structure Runtime where
  checkpoints : Table CheckpointKey CheckpointRow := .empty
  operations : OperationsTable := .missing
  /-- whether `schema_migrations` records the import -/
  imported : Bool := false

def Runtime.rows (runtime : Runtime) : Rows := ⟨runtime.checkpoints, runtime.operations.rebuilt⟩

/-- The files of a runs root. -/
structure RunsRoot where
  checkpointsDb : Option (Table CheckpointKey CheckpointRow)
  operationsDb : Option OperationsTable
  runtimeDb : Option Runtime
  /-- the copies named `.migrated` -/
  checkpointsCopy : Option (Table CheckpointKey CheckpointRow) := none
  operationsCopy : Option OperationsTable := none

inductive ImportError
  | rootBusy
  | stateCorrupt (key : OperationKey)
  /-- an error of SQLite, of the file system or of the interpreter -/
  | storage
  deriving DecidableEq, Repr

/-- Where an error or a crash may strike. -/
inductive FaultPoint
  | lock
  /-- before `operations` is rebuilt -/
  | prepare
  /-- behind that, and before the transaction -/
  | rebuilt
  /-- in the transaction, at a statement counted from zero -/
  | copying (statement : ℕ)
  /-- behind the commit -/
  | retire
  deriving DecidableEq, Repr

variable (loads : String → Except LoadError PyValue)

/-- `_is_pending_json` -/
def isPendingJson (raw : String) : Except ImportError Bool :=
  match loads raw with
  | .ok v => .ok (isPending v)
  | .error .valueError => .ok false
  | .error .recursionError => .error .storage

def copyCheckpoint (key : CheckpointKey) (row : CheckpointRow) (dest : Rows) : Rows :=
  match dest.checkpoints.get? key with
  -- An unequal row keeps its seq as an equal one does.
  | some _ => dest
  | none => { dest with checkpoints := dest.checkpoints.insertOrIgnore key row }

def copyOperation (key : OperationKey) (row : OperationRow) (dest : Rows) :
    Except ImportError Rows := do
  if ← isPendingJson loads row.resultJson then return dest
  match dest.operations.get? key with
  | some existing => if existing = row then return dest else throw (.stateCorrupt key)
  | none => return { dest with operations := dest.operations.insertOrIgnore key row }

/-- A statement of the transaction on the rows, and the record of the import. -/
inductive ImportStep
  | checkpoint (key : CheckpointKey) (row : CheckpointRow)
  | operation (key : OperationKey) (row : OperationRow)
  | record

def ImportStep.execute (dest : Rows) : ImportStep → Except ImportError Rows
  | .checkpoint key row => .ok (copyCheckpoint key row dest)
  | .operation key row => copyOperation loads key row dest
  | .record => .ok dest

/-- The statements up to the one at which a fault strikes. -/
def runSteps : List ImportStep → Option ℕ → Rows → Except ImportError Rows
  | [], _, dest => .ok dest
  | _ :: _, some 0, _ => .error .storage
  | step :: steps, fault, dest => do
    let dest ← step.execute loads dest
    runSteps steps (fault.map Nat.pred) dest

def RunsRoot.legacyCheckpoints (root : RunsRoot) : List (CheckpointKey × CheckpointRow) :=
  (root.checkpointsDb.map Table.rows).getD []

def RunsRoot.legacyOperations (root : RunsRoot) : List (OperationKey × OperationRow) :=
  (root.operationsDb.map OperationsTable.selected).getD []

def importSteps (root : RunsRoot) : List ImportStep :=
  root.legacyCheckpoints.map (fun row => .checkpoint row.1 row.2) ++
    root.legacyOperations.map (fun row => .operation row.1 row.2) ++ [.record]

/-- `_retire_legacy_files` -/
def RunsRoot.retired (root : RunsRoot) : RunsRoot :=
  { root with
    checkpointsCopy := root.checkpointsCopy <|> root.checkpointsDb
    operationsCopy := root.operationsCopy <|> root.operationsDb }

/-- `legacy_import_complete` -/
def RunsRoot.importComplete (root : RunsRoot) : Bool := root.runtimeDb.any Runtime.imported

def RunsRoot.pending (root : RunsRoot) : Bool :=
  (root.checkpointsDb.isSome || root.operationsDb.isSome) && !root.importComplete

def retire (fault : Option FaultPoint) (root : RunsRoot) : Except ImportError Bool × RunsRoot :=
  if fault = some .retire then (.error .storage, root) else (.ok true, root.retired)

/-- `_import_under_lock`: its answer, and the files behind it. -/
def importUnderLock (fault : Option FaultPoint) (root : RunsRoot) :
    Except ImportError Bool × RunsRoot :=
  let runtime := root.runtimeDb.getD {}
  if fault = some .prepare then (.error .storage, { root with runtimeDb := some runtime })
  else
    let runtime := { runtime with operations := .live runtime.operations.rebuilt }
    let root := { root with runtimeDb := some runtime }
    if fault = some .rebuilt then (.error .storage, root)
    else if runtime.imported then retire fault root
    else
      let statement := match fault with
        | some (.copying n) => some n
        | _ => none
      match runSteps loads (importSteps root) statement runtime.rows with
      | .error e => (.error e, root)
      | .ok rows =>
        retire fault
          { root with runtimeDb := some ⟨rows.checkpoints, .live rows.operations, true⟩ }

/-- `import_legacy_runtime` -/
def importLegacyRuntime (fault : Option FaultPoint) (root : RunsRoot) :
    Except ImportError Bool × RunsRoot :=
  if root.pending = false then (.ok true, root)
  else if fault = some .lock then (.error .rootBusy, root)
  else importUnderLock loads fault root

end Recertia.Persistence
