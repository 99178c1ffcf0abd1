import Mathlib.Logic.Function.Basic
import Recertia.Lib.DistinctCount
import Recertia.Lib.Table
import Recertia.Lib.Transition

/-! The failure clusters of the episodic memory (`contracts/cluster.py`,
`memory/episodic/clusters.py`), shared by stores on one path. -/
namespace Recertia.Clusters

open DistinctCount

structure FailureClusterRow where
  taskClass : String
  signature : String
  nRuns : ℕ := 0
  nSessions : ℕ := 0
  runIdsSample : List String := []
  sessionIdsSample : List String := []
  lastCaseHash : Option String := none
  eligible : Bool := false
  updatedAt : Option ℕ := none
  sampleCap : ℕ := 32
  minRuns : ℕ := 3
  minSessions : ℕ := 2
  sampleCap_bounds : 1 ≤ sampleCap ∧ sampleCap ≤ 256 := by decide
  one_le_minRuns : 1 ≤ minRuns := by decide
  one_le_minSessions : 1 ≤ minSessions := by decide

def FailureClusterRow.runs (row : FailureClusterRow) : Tally String :=
  ⟨row.nRuns, row.runIdsSample⟩

def FailureClusterRow.sessions (row : FailureClusterRow) : Tally String :=
  ⟨row.nSessions, row.sessionIdsSample⟩

/-- The row after one dead-end write. -/
def FailureClusterRow.note (row : FailureClusterRow) (runId sessionId : String)
    (caseHash : Option String) (at_ : ℕ) : FailureClusterRow :=
  let runs := row.runs.add row.sampleCap runId
  let sessions := row.sessions.add row.sampleCap sessionId
  { row with
    nRuns := runs.count
    nSessions := sessions.count
    runIdsSample := runs.sample
    sessionIdsSample := sessions.sample
    lastCaseHash := if caseHash.isSome then caseHash else row.lastCaseHash
    eligible := row.minRuns ≤ runs.count ∧ row.minSessions ≤ sessions.count
    updatedAt := some at_ }

/-- The arguments of an `upsert`; `time` is the clock's where none is given. -/
structure Note where
  taskClass : String
  signature : String
  runId : String
  sessionId : String
  caseHash : Option String
  minRuns : Int := 3
  minSessions : Int := 2
  time : ℕ

/-- `key` -/
def keyOf (taskClass signature : String) : String := taskClass ++ "::" ++ signature

def Note.key (n : Note) : String := keyOf n.taskClass n.signature

abbrev Rows := Table String FailureClusterRow

/-- A new row, unless its bounds refuse the arguments. -/
def Note.newRow (n : Note) : Option FailureClusterRow :=
  if h : 1 ≤ n.minRuns ∧ 1 ≤ n.minSessions then
    some
      { taskClass := n.taskClass
        signature := n.signature
        minRuns := n.minRuns.toNat
        minSessions := n.minSessions.toNat
        one_le_minRuns := by omega
        one_le_minSessions := by omega }
  else none

/-- The part of `upsert` between load and flush: the row and the rows with it. -/
def noteInto (rows : Rows) (n : Note) : Option (FailureClusterRow × Rows) :=
  ((rows.get? n.key).or n.newRow).map fun current =>
    let updated := current.note n.runId n.sessionId n.caseHash n.time
    (updated, rows.upsert n.key updated fun _ => updated)

/-- Where a store stands in the flush of an `upsert`. -/
inductive Phase
  | idle | flushing | written
  deriving DecidableEq, Repr

/-- One `ClusterStore`; it is locked while its phase is not `idle`. -/
structure ClusterStore where
  rows : Option Rows := none
  phase : Phase := .idle

/-- `_load`: the rows in memory, else those of the file. -/
def ClusterStore.load (s : ClusterStore) (file : Option Rows) : Rows :=
  s.rows.getD (file.getD .empty)

def ClusterStore.get (s : ClusterStore) (file : Option Rows) (taskClass signature : String) :
    Option FailureClusterRow := (s.load file).get? (keyOf taskClass signature)

/-- `eligible` -/
def ClusterStore.eligibleRows (s : ClusterStore) (file : Option Rows) (taskClass : Option String) :
    List FailureClusterRow :=
  let out := ((s.load file).rows.map Prod.snd).filter FailureClusterRow.eligible
  match taskClass with
  | some cls => out.filter fun row => row.taskClass = cls
  | none => out

/-- Several stores on one path. `noted` has the calls that have noted a row; no step reads it. -/
structure World (ι : Type) where
  file : Option Rows := none
  tmp : Option Rows := none
  stores : ι → ClusterStore := fun _ => {}
  noted : List Note := []

inductive Label (ι : Type)
  | upsert (i : ι) (n : Note)
  | writeTmp (i : ι)
  | replace (i : ι)
  | look (i : ι)

variable {ι : Type} [DecidableEq ι]

def World.set (w : World ι) (i : ι) (s : ClusterStore) : World ι :=
  { w with stores := Function.update w.stores i s }

/-- The lock of a store makes its calls wait for each other; between those of different stores any
step may come. -/
def step (w : World ι) : Label ι → Option (World ι)
  | .upsert i n =>
    match (w.stores i).phase with
    | .idle =>
      let rows := (w.stores i).load w.file
      match noteInto rows n with
      | some (_, after) =>
        some { w.set i { rows := some after, phase := .flushing } with noted := w.noted ++ [n] }
      | none => some (w.set i { rows := some rows })
    | _ => none
  | .writeTmp i =>
    match (w.stores i).phase with
    | .flushing =>
      some { w.set i { rows := (w.stores i).rows, phase := .written } with
        tmp := (w.stores i).rows }
    | _ => none
  | .replace i =>
    match (w.stores i).phase with
    | .written =>
      let after := w.set i { rows := (w.stores i).rows }
      match w.tmp with
      | some rows => some { after with file := some rows, tmp := none }
      -- another store has moved the file away; the call raises
      | none => some after
    | _ => none
  | .look i =>
    match (w.stores i).phase with
    | .idle => some (w.set i { rows := some ((w.stores i).load w.file) })
    | _ => none

def system : Transition.System (World ι) (Label ι) := ⟨step⟩

end Recertia.Clusters
