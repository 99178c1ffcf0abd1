import Recertia.Contract.RunState
import Recertia.Lib.Table

/-! `commit_hop`: the tables that a hop writes and the statements of its transaction. -/
namespace Recertia.Runtime

open Graph (RunState RouteEntry Terminal Arm)

abbrev TenantId := String
abbrev RunId := String

/-- `payload` stands for the fields that only the readers of a trajectory look at. -/
structure TrajectoryEvent (P : Type*) where
  runId : RunId
  seq : ℕ
  payload : P
  deriving DecidableEq, Repr

structure CheckpointRow where
  node : String
  nextNode : Option String
  state : RunState
  fencingToken : Option ℕ

structure SummaryRow where
  status : String
  terminal : Option String
  costUsd : ℚ
  taskClass : String
  attemptNo : ℕ
  arm : Arm

structure EvalOutboxWrite where
  observationKey : String
  tenantId : TenantId
  runId : RunId
  attemptNo : ℕ
  payload : RunState

inductive DeliveryStatus
  | pending
  | delivered
  | dead
  deriving DecidableEq, Repr

structure EvalOutboxRow where
  tenantId : TenantId
  runId : RunId
  attemptNo : ℕ
  payload : RunState
  status : DeliveryStatus := .pending
  attempts : ℕ := 0

/-- `imported` is no column: it marks the rows that came from the JSONL file of the run. -/
structure EventRow (P : Type*) where
  hopSeq : ℕ
  event : TrajectoryEvent P
  imported : Bool

structure OutboxRow where
  kind : String
  dedupeKey : String
  payloadJson : String

structure QueuedOutbox where
  payloadJson : String
  status : DeliveryStatus := .pending
  attempts : ℕ := 0

structure Database (P : Type*) where
  checkpoints : Table (RunId × ℕ) CheckpointRow
  runSummaries : Table RunId SummaryRow
  evalOutbox : Table String EvalOutboxRow
  trajectoryMeta : Table (TenantId × RunId) String
  trajectoryEvents : Table (TenantId × RunId × ℕ) (EventRow P)
  routeEntries : Table (TenantId × RunId × ℕ) RouteEntry
  outbox : Table (TenantId × String × String) QueuedOutbox

/-- The arguments of `insert_hop`. -/
structure HopArgs (P : Type*) where
  tenant : TenantId
  run : RunId
  seq : ℕ
  node : String
  nextNode : Option String
  state : RunState
  trajectory : List (TrajectoryEvent P) := []
  routeEntry : Option RouteEntry := none
  outboxRows : List OutboxRow := []
  fencingToken : Option ℕ := none
  importEvents : List (TrajectoryEvent P) := []
  metaJson : Option String := none
  evalOutbox : Option EvalOutboxWrite := none

def terminalText : Terminal → String
  | .solved => "solved"
  | .unsolved => "unsolved"
  | .abstained => "abstained"
  | .rejected => "rejected"
  | .error => "error"

variable {P : Type*}

namespace Database

/-- The rows of a run in the order in which they were written. -/
def eventRows (db : Database P) (tenant : TenantId) (run : RunId) : List (EventRow P) :=
  (db.trajectoryEvents.rows.filter fun row => row.1.1 = tenant ∧ row.1.2.1 = run).map Prod.snd

/-- `SELECT COALESCE(MAX(seq), -1)`, plus one. -/
def nextEventSeq (db : Database P) (tenant : TenantId) (run : RunId) : ℕ :=
  (db.eventRows tenant run).foldr (fun row n => max (row.event.seq + 1) n) 0

/-- `ORDER BY seq DESC LIMIT 1` -/
def latest (db : Database P) (run : RunId) : Option (ℕ × CheckpointRow) :=
  (db.checkpoints.rows.filter fun row => row.1.1 = run).foldr
    (fun row best => match best with
      | none => some (row.1.2, row.2)
      | some b => if b.1 < row.1.2 then some (row.1.2, row.2) else some b) none

def latestSeq (db : Database P) (run : RunId) : Option ℕ := (db.latest run).map Prod.fst

end Database

/-- The statements of `insert_hop`, in their order; a loop is one statement. -/
inductive Statement
  | insertCheckpoint | upsertSummary | enqueueEval | insertMeta | importEvents | insertEvents
  | insertRoute | enqueueOutbox
  deriving DecidableEq, Repr

def statements : List Statement :=
  [.insertCheckpoint, .upsertSummary, .enqueueEval, .insertMeta, .importEvents, .insertEvents,
    .insertRoute, .enqueueOutbox]

def summaryRow (s : RunState) : SummaryRow :=
  { status := (s.terminal.map terminalText).getD "running"
    terminal := s.terminal.map terminalText
    costUsd := s.spent.costUsd
    -- `task_class or "repo-chore"`
    taskClass := match s.task.taskClass with
      | none => "repo-chore"
      | some c => if c = "" then "repo-chore" else c
    attemptNo := s.attemptNo
    arm := s.arm }

abbrev EventTable (P : Type*) := Table (TenantId × RunId × ℕ) (EventRow P)

def insertEvent (a : HopArgs P) (hopSeq seq : ℕ) (imported : Bool) (event : TrajectoryEvent P)
    (t : EventTable P) : Option (EventTable P) :=
  t.insert (a.tenant, a.run, seq) ⟨hopSeq, { event with seq, runId := a.run }, imported⟩

/-- Behind the first event with a `seq`, the others with it are skipped. -/
def importAll (a : HopArgs P) : List ℕ → List (TrajectoryEvent P) → EventTable P →
    Option (EventTable P)
  | _, [], t => some t
  | seen, event :: events, t =>
    if event.seq ∈ seen then importAll a seen events t
    else (insertEvent a 0 event.seq true event t).bind (importAll a (event.seq :: seen) events)

/-- The events of the hop, numbered from `seq` on. -/
def insertAll (a : HopArgs P) : ℕ → List (TrajectoryEvent P) → EventTable P →
    Option (EventTable P)
  | _, [], t => some t
  | seq, event :: events, t =>
    (insertEvent a a.seq seq false event t).bind (insertAll a (seq + 1) events)

/-- A statement on the data it finds; `none` is an `IntegrityError`. -/
def Statement.exec (a : HopArgs P) (db : Database P) : Statement → Option (Database P)
  | .insertCheckpoint =>
    (db.checkpoints.insert (a.run, a.seq) ⟨a.node, a.nextNode, a.state, a.fencingToken⟩).map
      fun checkpoints => { db with checkpoints }
  | .upsertSummary =>
    let row := summaryRow a.state
    some { db with runSummaries := db.runSummaries.upsert a.run row fun _ => row }
  | .enqueueEval =>
    match a.evalOutbox with
    | none => some db
    | some e => some { db with
        evalOutbox := db.evalOutbox.insertOrIgnore e.observationKey
          { tenantId := e.tenantId, runId := e.runId, attemptNo := e.attemptNo
            payload := e.payload } }
  | .insertMeta =>
    match a.metaJson with
    | none => some db
    | some m => some { db with
        trajectoryMeta := db.trajectoryMeta.insertOrIgnore (a.tenant, a.run) m }
  | .importEvents =>
    if (db.eventRows a.tenant a.run).length = 0 then
      (importAll a [] a.importEvents db.trajectoryEvents).map fun trajectoryEvents =>
        { db with trajectoryEvents }
    else some db
  | .insertEvents =>
    (insertAll a (db.nextEventSeq a.tenant a.run) a.trajectory db.trajectoryEvents).map
      fun trajectoryEvents => { db with trajectoryEvents }
  | .insertRoute =>
    match a.routeEntry with
    | none => some db
    | some r => (db.routeEntries.insert (a.tenant, a.run, a.seq) r).map fun routeEntries =>
        { db with routeEntries }
  | .enqueueOutbox => some { db with
      outbox := a.outboxRows.foldl (fun t row =>
        t.insertOrIgnore (a.tenant, row.kind, row.dedupeKey) { payloadJson := row.payloadJson })
        db.outbox }

def execAll (a : HopArgs P) : List Statement → Database P → Option (Database P)
  | [], db => some db
  | st :: rest, db => (st.exec a db).bind (execAll a rest)

/-- `insert_hop` -/
def insertHop (a : HopArgs P) (db : Database P) : Option (Database P) := execAll a statements db

end Recertia.Runtime
