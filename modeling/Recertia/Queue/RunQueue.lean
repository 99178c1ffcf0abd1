import Recertia.Lib.Table
import Recertia.Lib.Transition
import Mathlib.Algebra.Order.Ring.Int

/-! `RunQueue` over `control.db`: the tables of the queue and the calls that change them.
Stamps are microseconds; `_now` of a call is an argument. -/
namespace Recertia.Queue
open Transition

inductive Status
  | queued
  | claimed
  | running
  | succeeded
  | failed
  | cancelled
  | dead
  deriving DecidableEq, Repr

/-- `_TERMINAL` -/
def Status.terminal : Status → Bool
  | .succeeded | .failed | .cancelled | .dead => true
  | _ => false

/-- `status IN ('claimed', 'running')` -/
def Status.inFlight : Status → Bool
  | .claimed | .running => true
  | _ => false

/-- `PRIMARY KEY (tenant_id, run_id, kind)` -/
structure Key where
  tenant : String
  runId : String
  kind : String
  deriving DecidableEq, Repr

/-- A row of `run_queue` without its key. -/
structure Row (P : Type*) where
  status : Status
  priority : Int
  enqueuedAt : Int
  notBefore : Int
  claimedBy : Option String := none
  claimToken : Int := 0
  heartbeatAt : Option Int := none
  attempt : ℕ := 0
  maxAttempts : Int
  payload : P
  errorCode : Option String := none
  finishedAt : Option Int := none
  cancelRequested : Bool := false
  deriving DecidableEq, Repr

structure Worker where
  startedAt : Int
  heartbeatAt : Int
  hostname : String
  pid : Int
  capacity : Int
  inflight : ℕ
  deriving DecidableEq, Repr

/-- A row of `tenant_sched`. -/
structure Sched where
  deficit : Int
  weight : Int
  lastClaimAt : Option Int := none
  deriving DecidableEq, Repr

/-- The limits of a tenant that the queue reads. -/
structure Limits where
  maxInFlight : Int
  maxQueueDepth : Int
  deriving DecidableEq, Repr

inductive Mode
  | «open»
  | quiescing
  | frozen
  deriving DecidableEq, Repr

structure Db (P : Type*) where
  runQueue : Table Key (Row P)
  workers : Table String Worker
  tenantSched : Table String Sched
  tenantLimits : Table String Limits
  maintenance : Option Mode

/-- The database behind the migrations. -/
def Db.migrated (P : Type*) : Db P where
  runQueue := .empty
  workers := .empty
  tenantSched := .empty
  tenantLimits := .empty
  maintenance := some .open

structure Settings where
  schedDeficitCap : Int := 1000
  queueMaxAttempts : Int := 3
  tenantMaxInFlight : Int := 4
  tenantMaxQueueDepth : Int := 100
  deriving DecidableEq, Repr

structure QueueItem (P : Type*) where
  tenantId : String
  runId : String
  kind : String
  payload : P
  priority : Int := 0
  maxAttempts : Int := 3
  enqueuedAt : Option Int := none
  notBefore : Option Int := none

def QueueItem.key {P : Type*} (item : QueueItem P) : Key := ⟨item.tenantId, item.runId, item.kind⟩

/-- The row that `enqueue` writes of an item. -/
def QueueItem.row {P : Type*} (cfg : Settings) (now : Int) (item : QueueItem P) : Row P :=
  let stamp := item.enqueuedAt.getD now
  let due := item.notBefore.getD stamp
  let attempts := if item.maxAttempts = 0 then cfg.queueMaxAttempts else item.maxAttempts
  { status := .queued, priority := item.priority, enqueuedAt := stamp, notBefore := due
    maxAttempts := attempts, payload := item.payload }

structure Claim (P : Type*) where
  key : Key
  claimToken : Int
  attempt : ℕ
  payload : P

inductive QueueError
  | invalidTenantId
  | unsupportedKind (kind : String)
  | quotaExceeded (tenant : String) (maxQueueDepth : Int)
  | alreadyExists (key : Key)
  | staleClaim (key : Key) (token : Int)
  deriving DecidableEq, Repr

/-- `^[A-Za-z0-9][A-Za-z0-9_-]{0,63}$` -/
def tenantId (value : String) : Option String :=
  match value.toList with
  | [] => none
  | c :: cs =>
    if c.isAlphanum && cs.all (fun d => d.isAlphanum || d == '_' || d == '-') && cs.length ≤ 63
    then some value else none

variable {P : Type*}

def isQueuedOf (tenant : String) (key : Key) (row : Row P) : Bool :=
  key.tenant = tenant && row.status = .queued

def isInFlightOf (tenant : String) (key : Key) (row : Row P) : Bool :=
  key.tenant = tenant && row.status.inFlight

/-- What `replace_terminal` sets of the old row: the token stays. -/
def replaced (row old : Row P) : Row P :=
  { old with
    status := .queued, priority := row.priority, enqueuedAt := row.enqueuedAt
    notBefore := row.notBefore, claimedBy := none, heartbeatAt := none, attempt := 0
    maxAttempts := row.maxAttempts, payload := row.payload, errorCode := none
    finishedAt := none, cancelRequested := false }

/-- `WHERE ... AND claim_token=? AND status IN from` -/
def holds (claim : Claim P) (fromStatus : List Status) (key : Key) (row : Row P) : Bool :=
  key = claim.key && row.claimToken = claim.claimToken && fromStatus.contains row.status

/-- What `_transition` sets: `COALESCE(?, finished_at)` keeps an old stamp. -/
def transitioned (now : Int) (status : Status) (errorCode : Option String) (row : Row P) : Row P :=
  let finished := if status.terminal then some now else none
  { row with
    status, heartbeatAt := some now, errorCode, finishedAt := finished.or row.finishedAt }

/-- What `requeue` sets. -/
def requeued (due : Int) (errorCode : String) (row : Row P) : Row P :=
  { row with
    status := .queued, claimedBy := none, heartbeatAt := none, notBefore := due
    errorCode := some errorCode }

/-- What the `SELECT` of `reconcile_orphans` returns of a row. -/
structure Orphan where
  key : Key
  attempt : ℕ
  maxAttempts : Int
  pid : Option Int
  deriving DecidableEq, Repr

/-- `_pid_alive` over the processes that there are. -/
def pidAlive (alive : Int → Bool) : Option Int → Bool
  | some pid => alive pid
  | none => false

/-- What the `UPDATE` of `reconcile_orphans` sets. -/
def reap (now : Int) (orphan : Orphan) (row : Row P) : Row P :=
  if orphan.maxAttempts ≤ (orphan.attempt + 1 : ℕ) then
    { row with status := .dead, errorCode := some "lease_expired", finishedAt := some now }
  else
    { row with
      status := .queued, attempt := orphan.attempt + 1, claimedBy := none
      notBefore := now + min (2 ^ (orphan.attempt + 1)) 60 * 1000000, heartbeatAt := none }

namespace Db

def depth (db : Db P) (tenant : String) : ℕ := db.runQueue.count (isQueuedOf tenant)

/-- The number that `_claim_one` compares with `max_in_flight`: all kinds count. -/
def inFlight (db : Db P) (tenant : String) : ℕ := db.runQueue.count (isInFlightOf tenant)

/-- `_ensure_tenant` -/
def ensureTenant (cfg : Settings) (tenant : String) (db : Db P) : Db P :=
  { db with
    tenantSched := db.tenantSched.insertOrIgnore tenant { deficit := 0, weight := 1 }
    tenantLimits := db.tenantLimits.insertOrIgnore tenant
      { maxInFlight := cfg.tenantMaxInFlight, maxQueueDepth := cfg.tenantMaxQueueDepth } }

def queueCap (cfg : Settings) (tenant : String) (db : Db P) : Int :=
  match db.tenantLimits.get? tenant with
  | some limits => limits.maxQueueDepth
  | none => cfg.tenantMaxQueueDepth

/-- The `INSERT` or `UPDATE` of `enqueue`, inside its transaction. -/
def put (cfg : Settings) (key : Key) (row : Row P) (replaceTerminal : Bool) (db : Db P) :
    Except QueueError (Db P) :=
  let depth : Int := db.depth key.tenant
  let cap := db.queueCap cfg key.tenant
  match db.runQueue.get? key with
  | none =>
    if cap ≤ depth then .error (.quotaExceeded key.tenant cap)
    else .ok { db with runQueue := db.runQueue.insertOrIgnore key row }
  | some existing =>
    if replaceTerminal && existing.status.terminal then
      if cap ≤ depth then .error (.quotaExceeded key.tenant cap)
      else .ok { db with
        runQueue := db.runQueue.update (fun k _ => k = key) (replaced row) }
    else .error (.alreadyExists key)

def enqueue (cfg : Settings) (now : Int) (item : QueueItem P) (replaceTerminal : Bool)
    (db : Db P) : Db P × Except QueueError Unit :=
  match tenantId item.tenantId with
  | none => (db, .error .invalidTenantId)
  | some tenant =>
    if item.kind ∉ ["run", "eval", "job"] then (db, .error (.unsupportedKind item.kind))
    else
      -- The tenant's rows are committed before the transaction begins.
      let db := db.ensureTenant cfg tenant
      match db.put cfg ⟨tenant, item.runId, item.kind⟩ (item.row cfg now) replaceTerminal with
      | .ok db => (db, .ok ())
      | .error e => (db, .error e)

/-- `rowcount = 1` of a statement with that guard. -/
def rowHolds (db : Db P) (claim : Claim P) (fromStatus : List Status) : Bool :=
  match db.runQueue.get? claim.key with
  | some row => holds claim fromStatus claim.key row
  | none => false

def heartbeatClaim (now : Int) (claim : Claim P) (db : Db P) : Db P :=
  { db with
    runQueue := db.runQueue.update (holds claim [.claimed, .running]) fun row =>
      { row with heartbeatAt := some now } }

/-- `_transition` -/
def transition (now : Int) (claim : Claim P) (status : Status) (errorCode : Option String)
    (fromStatus : List Status) (db : Db P) : Db P × Except QueueError Unit :=
  let db' := { db with
    runQueue := db.runQueue.update (holds claim fromStatus) (transitioned now status errorCode) }
  if db.rowHolds claim fromStatus then (db', .ok ())
  else match tenantId claim.key.tenant, db'.runQueue.get? claim.key with
    | none, _ => (db', .error .invalidTenantId)
    | some _, some current =>
      if current.status = status ∧ current.claimToken = claim.claimToken then (db', .ok ())
      else (db', .error (.staleClaim claim.key claim.claimToken))
    | some _, none => (db', .error (.staleClaim claim.key claim.claimToken))

def markRunning (now : Int) (claim : Claim P) (db : Db P) : Db P × Except QueueError Unit :=
  db.transition now claim .running none [.claimed]

/-- `finish` ends a row in a terminal status. -/
def finish (now : Int) (claim : Claim P) (status : { s : Status // s.terminal = true })
    (errorCode : Option String) (db : Db P) : Db P × Except QueueError Unit :=
  db.transition now claim status errorCode [.claimed, .running]

def requeue (now : Int) (claim : Claim P) (delay : Int) (errorCode : String) (db : Db P) :
    Db P × Except QueueError Unit :=
  let due := now + max 0 delay
  let db' := { db with
    runQueue := db.runQueue.update (holds claim [.claimed, .running]) (requeued due errorCode) }
  if db.rowHolds claim [.claimed, .running] then (db', .ok ())
  else (db', .error (.staleClaim claim.key claim.claimToken))

def requestCancel (tenant runId kind : String) (db : Db P) : Db P × Except QueueError Unit :=
  match tenantId tenant with
  | none => (db, .error .invalidTenantId)
  | some ident =>
    ({ db with
      runQueue := db.runQueue.update
        (fun key row => key = ⟨ident, runId, kind⟩ && !row.status.terminal)
        fun row => { row with cancelRequested := true } }, .ok ())

/-! `_claim_one` -/

/-- The `WHERE` of the pick. A tenant without its two rows is not joined. -/
def claimable (db : Db P) (now : Int) (key : Key) (row : Row P) : Bool :=
  row.status = .queued && decide (row.notBefore ≤ now) &&
    match db.tenantSched.get? key.tenant, db.tenantLimits.get? key.tenant with
    | some _, some limits => decide ((db.inFlight key.tenant : Int) < limits.maxInFlight)
    | _, _ => false

def deficit (db : Db P) (tenant : String) : Int :=
  match db.tenantSched.get? tenant with
  | some sched => sched.deficit
  | none => 0

/-- `ORDER BY s.deficit DESC, q.enqueued_at ASC` -/
def sortsUpTo (db : Db P) (a b : Key × Row P) : Bool :=
  db.deficit b.1.tenant < db.deficit a.1.tenant ||
    (db.deficit a.1.tenant = db.deficit b.1.tenant && a.2.enqueuedAt ≤ b.2.enqueuedAt)

def candidates (db : Db P) (now : Int) : List (Key × Row P) :=
  db.runQueue.rows.filter fun row => db.claimable now row.1 row.2

/-- The row that `LIMIT 1` may return: among equal rows SQLite chooses. -/
def picks (db : Db P) (now : Int) (pick : Key × Row P) : Bool :=
  db.claimable now pick.1 pick.2 && (db.candidates now).all (db.sortsUpTo pick)

/-- `UPDATE run_queue SET status='claimed'` and the two updates of `tenant_sched`. -/
def take (cfg : Settings) (now : Int) (worker : String) (key : Key) (db : Db P) : Db P :=
  let others := db.tenantSched.update (fun tenant _ => !decide (tenant = key.tenant)) fun sched =>
    { sched with deficit := min (sched.deficit + sched.weight) cfg.schedDeficitCap }
  { db with
    runQueue := db.runQueue.update (fun k row => k = key && row.status = .queued) fun row =>
      { row with
        status := .claimed, claimedBy := some worker, claimToken := row.claimToken + 1
        heartbeatAt := some now }
    tenantSched := others.update (fun tenant _ => tenant = key.tenant) fun sched =>
      { sched with deficit := sched.deficit - 1, lastClaimAt := some now } }

/-- `_claim_one`. `pick` is the row that SQLite returns when there is one to return; there is
no step with a row that it would not return. -/
def claimOne (cfg : Settings) (now : Int) (worker : String) (pick : Key) (db : Db P) :
    Option (Db P × Option (Claim P)) :=
  if db.maintenance ≠ some .open then some (db, none)
  else if (db.candidates now).isEmpty then some (db, none)
  else match db.runQueue.get? pick with
    | none => none
    | some row =>
      if db.picks now (pick, row) then
        some (db.take cfg now worker pick,
          some { key := pick, claimToken := row.claimToken + 1, attempt := row.attempt
                 payload := row.payload })
      else none

/-! `reconcile_orphans` -/

/-- `LEFT JOIN workers w ON w.worker_id = q.claimed_by` -/
def claimantPid (db : Db P) (row : Row P) : Option Int :=
  (row.claimedBy.bind db.workers.get?).map Worker.pid

def orphanOf (db : Db P) (row : Key × Row P) : Orphan :=
  ⟨row.1, row.2.attempt, row.2.maxAttempts, db.claimantPid row.2⟩

def inFlightRows (db : Db P) : List (Key × Row P) :=
  db.runQueue.rows.filter fun row => row.2.status.inFlight

/-- The `UPDATE` for an orphan looks at the key and the status only. -/
def reapOrphan (now : Int) (orphan : Orphan) (db : Db P) : Db P :=
  { db with
    runQueue := db.runQueue.update (fun key row => key = orphan.key && row.status.inFlight)
      (reap now orphan) }

def reconcileOrphans (now : Int) (alive : Int → Bool) (db : Db P) : Db P :=
  ((db.inFlightRows.map db.orphanOf).filter fun orphan => !pidAlive alive orphan.pid).foldl
    (fun db orphan => db.reapOrphan now orphan) db

/-! The other calls -/

def registerWorker (now : Int) (workerId : String) (capacity : Int) (hostname : String)
    (pid : Int) (db : Db P) : Db P :=
  { db with
    workers := db.workers.upsert workerId
      { startedAt := now, heartbeatAt := now, hostname, pid, capacity, inflight := 0 }
      fun worker => { worker with heartbeatAt := now, hostname, pid, capacity } }

def heartbeatWorker (now : Int) (workerId : String) (db : Db P) : Db P :=
  let inflight := db.runQueue.count fun _ row =>
    row.claimedBy = some workerId && row.status.inFlight
  { db with
    workers := db.workers.update (fun id _ => id = workerId) fun worker =>
      { worker with heartbeatAt := now, inflight } }

def setMaxInFlight (cfg : Settings) (tenant : String) (maxInFlight : Int) (db : Db P) :
    Db P × Except QueueError Unit :=
  match tenantId tenant with
  | none => (db, .error .invalidTenantId)
  | some ident =>
    let db := db.ensureTenant cfg ident
    ({ db with
      tenantLimits := db.tenantLimits.update (fun t _ => t = ident) fun limits =>
        { limits with maxInFlight } }, .ok ())

/-- `UPDATE maintenance SET mode=? WHERE id=1` -/
def setMaintenance (mode : Mode) (db : Db P) : Db P :=
  { db with maintenance := db.maintenance.map fun _ => mode }

end Db

/-- The calls that write. -/
inductive Call (P : Type*)
  | enqueue (item : QueueItem P) (replaceTerminal : Bool)
  /-- `claim` of one item; a larger `limit` is that many of these -/
  | claim (worker : String) (pick : Key)
  | heartbeatClaim (claim : Claim P)
  | markRunning (claim : Claim P)
  | finish (claim : Claim P) (status : { s : Status // s.terminal = true })
      (errorCode : Option String)
  | requeue (claim : Claim P) (delay : Int) (errorCode : String)
  | requestCancel (tenant runId kind : String)
  | reconcileOrphans (alive : Int → Bool)
  | registerWorker (workerId : String) (capacity : Int) (hostname : String) (pid : Int)
  | heartbeatWorker (workerId : String)
  /-- `max_in_flight` and `max_queue_depth` write the tenant's rows before they read -/
  | readLimits (tenant : String)
  | setMaxInFlight (tenant : String) (maxInFlight : Int)
  | setMaintenance (mode : Mode)

/-- A call as one process makes it: under its settings, at its time. -/
structure Request (P : Type*) where
  cfg : Settings := {}
  now : Int
  call : Call P

/-- The database behind a call, whether it returns or raises. -/
def Db.serve (db : Db P) (r : Request P) : Option (Db P) :=
  match r.call with
  | .enqueue item replaceTerminal => some (db.enqueue r.cfg r.now item replaceTerminal).1
  | .claim worker pick => (db.claimOne r.cfg r.now worker pick).map Prod.fst
  | .heartbeatClaim claim => some (db.heartbeatClaim r.now claim)
  | .markRunning claim => some (db.markRunning r.now claim).1
  | .finish claim status errorCode => some (db.finish r.now claim status errorCode).1
  | .requeue claim delay errorCode => some (db.requeue r.now claim delay errorCode).1
  | .requestCancel tenant runId kind => some (db.requestCancel tenant runId kind).1
  | .reconcileOrphans alive => some (db.reconcileOrphans r.now alive)
  | .registerWorker workerId capacity hostname pid =>
    some (db.registerWorker r.now workerId capacity hostname pid)
  | .heartbeatWorker workerId => some (db.heartbeatWorker r.now workerId)
  | .readLimits tenant =>
    some (match tenantId tenant with
      | some ident => db.ensureTenant r.cfg ident
      | none => db)
  | .setMaxInFlight tenant maxInFlight => some (db.setMaxInFlight r.cfg tenant maxInFlight).1
  | .setMaintenance mode => some (db.setMaintenance mode)

def queueSystem (P : Type*) : System (Db P) (Request P) where
  step := Db.serve

end Recertia.Queue
