import Recertia.Lib.Transition
import Recertia.Runtime.HopSpec

/-! The hop loops of any number of orchestrators, in any number of processes, on one database:
starts, resumes, hops, commits and crashes. The lease is left to the fence of each commit. -/
namespace Recertia.Runtime

open Graph (RunState RouteEntry)
open Transition

abbrev EngineId := ℕ

/-- What `_execute` holds between two hops. -/
structure Loop where
  tenant : TenantId
  run : RunId
  state : RunState
  node : String
  nextSeq : ℕ

inductive Phase (P : Type*)
  | idle
  /-- `start` has found no checkpoint and has not entered the loop yet -/
  | starting (tenant : TenantId) (run : RunId) (state : RunState)
  | ready (loop : Loop)
  | saving (a : HopArgs P)
  | writing (a : HopArgs P) (remaining : List Statement) (work : Database P)
  | committed (a : HopArgs P)

structure World (P : Type*) where
  db : Database P
  /-- the JSONL files -/
  trajectories : RunId → List (TrajectoryEvent P)
  /-- the holder of the database's write lock -/
  writer : Option EngineId := none
  phase : EngineId → Phase P

/-- What a node function and the hooks make of a hop. -/
structure HopResult (P : Type*) where
  nextNode : Option String
  state : RunState
  trajectory : List (TrajectoryEvent P) := []
  routeEntry : Option RouteEntry := none
  outboxRows : List OutboxRow := []
  fencingToken : Option ℕ := none
  metaJson : Option String := none
  evalOutbox : Option EvalOutboxWrite := none

inductive Label (P : Type*)
  | start (e : EngineId) (tenant : TenantId) (run : RunId) (state : RunState)
  | enter (e : EngineId)
  | resume (e : EngineId) (tenant : TenantId) (run : RunId) (synced : Bool)
  | hop (e : EngineId) (result : HopResult P)
  | begin (e : EngineId) (fenceOk : Bool)
  | statement (e : EngineId)
  | commit (e : EngineId)
  | finish (e : EngineId) (synced : Bool)
  | pause (e : EngineId)
  | crash (e : EngineId)

variable {P : Type*}

def setPhase (w : World P) (e : EngineId) (p : Phase P) : World P :=
  { w with phase := Function.update w.phase e p }

/-- The write lock goes when its holder rolls back, commits or dies. -/
def unlock (w : World P) (e : EngineId) : World P :=
  { w with writer := if w.writer = some e then none else w.writer }

/-- `list_trajectory_events`: `ORDER BY seq ASC`. -/
def listTrajectoryEvents (db : Database P) (tenant : TenantId) (run : RunId) :
    List (TrajectoryEvent P) :=
  ((db.eventRows tenant run).map (·.event)).mergeSort fun x y => x.seq ≤ y.seq

/-- `_sync_trajectory_projection`, when nothing fails in it. -/
def syncProjection (w : World P) (tenant : TenantId) (run : RunId) (synced : Bool) : World P :=
  if synced then
    { w with
      trajectories := Function.update w.trajectories run (listTrajectoryEvents w.db tenant run) }
  else w

def nextSeq (db : Database P) (run : RunId) : ℕ :=
  match db.latestSeq run with
  | none => 0
  | some seq => seq + 1

/-- `resume`: a run without checkpoints raises, and a finished one is left as it is. -/
def resumed (db : Database P) (tenant : TenantId) (run : RunId) : Phase P :=
  match db.latest run with
  | none => .idle
  | some (seq, row) =>
    match row.nextNode with
    | none => .idle
    | some node => .ready { tenant, run, state := row.state, node, nextSeq := seq + 1 }

def hopArgs (w : World P) (loop : Loop) (r : HopResult P) : HopArgs P :=
  { tenant := loop.tenant, run := loop.run, seq := loop.nextSeq, node := loop.node
    nextNode := r.nextNode, state := r.state, trajectory := r.trajectory
    routeEntry := r.routeEntry, outboxRows := r.outboxRows, fencingToken := r.fencingToken
    importEvents := w.trajectories loop.run, metaJson := r.metaJson, evalOutbox := r.evalOutbox }

/-- The next turn of the loop behind a committed hop. -/
def nextTurn (a : HopArgs P) : Phase P :=
  match a.nextNode with
  | none => .idle
  | some node =>
    .ready { tenant := a.tenant, run := a.run, state := a.state, node, nextSeq := a.seq + 1 }

def step (w : World P) : Label P → Option (World P)
  | .start e tenant run state =>
    match w.phase e with
    | .idle =>
      -- `RunIdExistsError` otherwise
      if (w.db.latestSeq run).isNone then some (setPhase w e (.starting tenant run state))
      else some w
    | _ => none
  | .enter e =>
    match w.phase e with
    | .starting tenant run state =>
      some (setPhase w e
        (.ready { tenant, run, state, node := "intake", nextSeq := nextSeq w.db run }))
    | _ => none
  | .resume e tenant run synced =>
    match w.phase e with
    | .idle => some (setPhase (syncProjection w tenant run synced) e (resumed w.db tenant run))
    | _ => none
  | .hop e result =>
    match w.phase e with
    | .ready loop => some (setPhase w e (.saving (hopArgs w loop result)))
    | _ => none
  | .begin e fenceOk =>
    match w.phase e with
    | .saving a =>
      if fenceOk then
        match w.writer with
        | none => some (setPhase { w with writer := some e } e (.writing a statements w.db))
        | some _ => none
      else some (setPhase w e .idle)
    | _ => none
  | .statement e =>
    match w.phase e with
    | .writing a (st :: rest) work =>
      match st.exec a work with
      | some work => some (setPhase w e (.writing a rest work))
      | none => some (setPhase (unlock w e) e .idle)
    | _ => none
  | .commit e =>
    match w.phase e with
    | .writing a [] work => some (setPhase (unlock { w with db := work } e) e (.committed a))
    | _ => none
  | .finish e synced =>
    match w.phase e with
    | .committed a => some (setPhase (syncProjection w a.tenant a.run synced) e (nextTurn a))
    | _ => none
  | .pause e =>
    match w.phase e with
    | .ready _ => some (setPhase w e .idle)
    | _ => none
  | .crash e => some (setPhase (unlock w e) e .idle)

def system (P : Type*) : System (World P) (Label P) := ⟨step⟩

/-- A database before its first hop commit: no events and no routes, whatever checkpoints, outbox
rows and JSONL files there are. -/
structure Legacy (P : Type*) where
  checkpoints : Table (RunId × ℕ) CheckpointRow
  runSummaries : Table RunId SummaryRow
  evalOutbox : Table String EvalOutboxRow
  trajectoryMeta : Table (TenantId × RunId) String
  outbox : Table (TenantId × String × String) QueuedOutbox
  trajectories : RunId → List (TrajectoryEvent P)

def Legacy.world (l : Legacy P) : World P where
  db :=
    { checkpoints := l.checkpoints, runSummaries := l.runSummaries, evalOutbox := l.evalOutbox
      trajectoryMeta := l.trajectoryMeta, trajectoryEvents := Table.empty
      routeEntries := Table.empty, outbox := l.outbox }
  trajectories := l.trajectories
  phase _ := .idle

end Recertia.Runtime
