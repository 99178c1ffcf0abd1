import Mathlib.Algebra.Order.Ring.Int
import Recertia.Worker.Execute

/-! `RunService.create`: admission, the reservation of the run id, and the enqueue, over the
registry, the run table, the queue and the event log. -/
namespace Recertia.Api

open Json (PyValue PyDict)
open PosixPath (PurePath)
open Graph (Arm Budget TaskCriterion)
open Worker (Goal ModelConfig Python AsyncRunRequest orError)

inductive RunMode
  | sync
  | async
  deriving DecidableEq, Repr

def RunMode.text : RunMode → String
  | .sync => "sync"
  | .async => "async"

/-- The body of `POST /v1/runs`. -/
structure RunCreate where
  goal : Option Goal := none
  request : Option String := none
  taskClass : Option String := none
  criteria : Option (List PyValue) := none
  script : Option (List String) := none
  budget : Option PyDict := none
  workdir : Option String := none
  workspaceId : Option String := none
  runId : Option String := none
  arm : Arm := .treatment
  mode : RunMode := .sync
  /-- `mode` is among `model_fields_set` -/
  modeSet : Bool := false
  model : Option String := none
  requireGoalOrRequest : goal.isSome ∨ ∃ r ∈ request, Text.strip r ≠ ""

/-- `(tenant_id, run_id)` -/
abbrev RunKey := String × String

structure RunRecord where
  runId : String
  request : Option String := none
  taskClass : String
  status : String
  createdAt : Int
  tenantId : String
  terminal : Option String := none
  hasGoal : Bool := false
  mode : Option String := none
  criteriaHash : Option String := none
  workspaceId : Option String := none
  workdir : Option String := none
  deriving DecidableEq, Repr

/-- A row of `runs` in `runtime.db`. -/
structure RegistryRow where
  status : String
  requestHash : String
  summary : List (String × String)
  workdir : Option String
  createdAt : Int
  updatedAt : Int
  deriving DecidableEq, Repr

structure RunEvent where
  tenantId : String
  runId : String
  type : String
  payload : List (String × String)
  deriving DecidableEq, Repr

/-- What a creation writes. -/
structure Stores where
  registry : Table RunKey RegistryRow
  runs : Table RunKey RunRecord
  queue : Queue.Db PyDict
  events : List RunEvent

/-- A Python number read from a text. -/
inductive Number
  | finite (q : ℚ)
  | infinity
  | negInfinity
  | nan
  deriving DecidableEq

structure TenantQuota where
  maxRunsPerDay : ℕ := 100
  maxCostUsdPerDay : ℚ := 50
  maxInFlight : Int := 4

structure ResolvedWorkdir where
  path : PurePath
  registered : Bool

/-- What a call finds around it: its principal, the settings, the answers of the other
components, and what the operating system lets it do. -/
structure Context where
  python : Python
  /-- `float(text)` -/
  float : String → Option Number
  tenantId : String
  executionReady : Bool
  /-- `pdp.require` for the principal on its tenant -/
  permits : String → Bool
  mayExec : Bool
  /-- `model_config_for_run`; nothing where it raises -/
  modelConfigForRun : Option String → Option (Option ModelConfig)
  freshRunId : String
  hasCheckpoints : RunKey → Bool
  /-- `resolve_create_workdir`; nothing where it raises -/
  resolveWorkdir : RunKey → Option String → Option String → Option ResolvedWorkdir
  requestHash : RunCreate → String → String
  workspaceBusy : PurePath → Bool
  makesDir : PurePath → Bool
  persistsWorkdir : Bool
  runsToday : ℕ
  costUsdToday : ℚ
  quota : TenantQuota
  eventsWritable : Bool
  root : PurePath
  skillsRoot : PurePath
  factsRoot : PurePath
  maxCriterionTimeoutS : ℕ
  apiDefaultAsync : Bool
  apiSyncWaitS : ℚ
  queueSettings : Queue.Settings
  now : Int

inductive Refusal
  | sandboxError
  | forbidden (action : String)
  | modelNotAllowed
  | invalidRunId
  | runIdExists
  | invalidWorkdir
  | workspaceBusy
  | osError
  | invalidCriteria
  | invalidBudget
  | invalidWait
  | quotaExceeded
  | queueError (error : Queue.QueueError)
  deriving DecidableEq, Repr

def refuseUnless (allowed : Bool) (refusal : Refusal) : Except Refusal Unit :=
  if allowed then .ok () else .error refusal

/-- `^[A-Za-z0-9][A-Za-z0-9._-]{0,127}$` -/
def validateRunId (runId : String) : Except Refusal String :=
  match runId.toList with
  | [] => .error .invalidRunId
  | c :: cs =>
    if c.isAlphanum && cs.all (fun d => d.isAlphanum || d == '.' || d == '_' || d == '-') &&
        cs.length ≤ 127 then .ok runId
    else .error .invalidRunId

/-- What is known of a creation when it reserves its run id. -/
structure Prepared where
  modelConfig : Option ModelConfig
  runId : String
  workdir : ResolvedWorkdir

def Prepared.key (prepared : Prepared) (ctx : Context) : RunKey := (ctx.tenantId, prepared.runId)

/-- `create` up to the reservation. -/
def prepare (ctx : Context) (stores : Stores) (body : RunCreate) : Except Refusal Prepared := do
  let _ ← refuseUnless ctx.executionReady .sandboxError
  let _ ← refuseUnless (ctx.permits "runs.create") (.forbidden "runs.create")
  let _ ← refuseUnless (body.script.all List.isEmpty || ctx.permits "runs.script")
    (.forbidden "runs.script")
  let modelConfig ← orError .modelNotAllowed (ctx.modelConfigForRun body.model)
  let given := body.runId.getD ""
  let runId ← validateRunId (if given ≠ "" then given else ctx.freshRunId)
  let runKey := (ctx.tenantId, runId)
  let _ ← refuseUnless ((stores.runs.get? runKey).isNone && !ctx.hasCheckpoints runKey) .runIdExists
  let workdir ← orError .invalidWorkdir (ctx.resolveWorkdir runKey body.workdir body.workspaceId)
  return { modelConfig, runId, workdir }

/-- The row that `_reserve_run_id` inserts. -/
def reservation (ctx : Context) (body : RunCreate) (prepared : Prepared) : RegistryRow where
  status := "accepted"
  requestHash := ctx.requestHash body prepared.runId
  summary := [("run_id", prepared.runId), ("status", "accepted"), ("tenant_id", ctx.tenantId)]
  workdir := some prepared.workdir.path.str
  createdAt := ctx.now
  updatedAt := ctx.now

/-- What `create` computes between the reservation and `_enqueue_run`. -/
structure Checked where
  request : Option String
  taskClass : String
  criteria : List TaskCriterion
  budget : Budget

def check (ctx : Context) (body : RunCreate) (prepared : Prepared) : Except Refusal Checked := do
  let _ ← refuseUnless (!ctx.workspaceBusy prepared.workdir.path) .workspaceBusy
  let _ ← refuseUnless (prepared.workdir.registered || ctx.makesDir prepared.workdir.path) .osError
  let _ ← refuseUnless ctx.persistsWorkdir .osError
  let context := (body.goal.bind fun goal => goal.context).getD ""
  let request := if context ≠ "" ∧ body.request.getD "" = "" then some context else body.request
  let taskClass := Worker.resolveTaskClass body.taskClass (body.goal.bind fun goal => goal.taskClass)
  let criteria ← (body.criteria.getD []).mapM fun item =>
    orError .invalidCriteria (ctx.python.criterion.validate item)
  let budget ← match body.budget.getD [] with
    | [] => .ok default
    | items => orError .invalidBudget (ctx.python.budget.validate (.dict items))
  return { request, taskClass, budget
           criteria := Graph.clampCriterionTimeouts ctx.maxCriterionTimeoutS criteria }

/-- What the `Prefer` header says about waiting: nothing, the cap, or a text. -/
inductive Preferred
  | nothing
  | cap
  | text (raw : String)
  deriving DecidableEq, Repr

def preferredWait : List String → Preferred
  | [] => .nothing
  | part :: parts =>
    let token := Text.strip part
    let lowered := Text.lower token
    if lowered = "wait" then .cap
    else if Text.startsWith lowered "wait=" then
      .text (Text.strip (String.ofList ((token.toList.dropWhile (· ≠ '=')).drop 1)))
    else preferredWait parts

/-- The three places where a caller can ask to wait. -/
structure WaitHeaders where
  wait : Option String := none
  xRecertiaWait : Option String := none
  prefer : Option String := none
  deriving DecidableEq, Repr

/-- `seconds < 0` raises, zero is no wait, and the cap bounds the rest. -/
def boundedWait (cap : ℚ) : Number → Except Refusal (Option Number)
  | .finite q =>
    if q < 0 then .error .invalidWait else if q = 0 then .ok none
    else .ok (some (.finite (min q cap)))
  | .infinity => .ok (some (.finite cap))
  | .negInfinity => .error .invalidWait
  | .nan => .ok (some .nan)

def waitSeconds (float : String → Option Number) (headers : WaitHeaders) (mode : RunMode)
    (syncWaitS : ℚ) : Except Refusal (Option Number) :=
  let cap := max syncWaitS 0
  let preferred := match headers.wait.or headers.xRecertiaWait with
    | some raw => Preferred.text raw
    | none => preferredWait (((headers.prefer.getD "").toList.splitOn ',').map String.ofList)
  match preferred with
  | .cap => .ok (some (.finite cap))
  | .nothing => .ok (if mode = .async then none else some (.finite cap))
  | .text raw =>
    if Text.strip raw = "" then .ok (some (.finite cap))
    else match float (Text.strip raw) with
      | none => .error .invalidWait
      | some seconds => boundedWait cap seconds

/-- `inflight` counts the runs only. -/
def runsInFlight (queue : Queue.Db PyDict) (tenant : String) : ℕ :=
  queue.runQueue.count fun key row => Queue.isInFlightOf tenant key row && key.kind = "run"

def maxInFlight (cfg : Queue.Settings) (queue : Queue.Db PyDict) (tenant : String) : Int :=
  match queue.tenantLimits.get? tenant with
  | some limits => limits.maxInFlight
  | none => cfg.tenantMaxInFlight

/-- `QuotaStore.admit`, with the numbers of the queue. -/
def admitRun (ctx : Context) (queue : Queue.Db PyDict) : Except Refusal Unit :=
  if ctx.quota.maxRunsPerDay ≤ ctx.runsToday then .error .quotaExceeded
  else if ctx.quota.maxCostUsdPerDay ≤ ctx.costUsdToday then .error .quotaExceeded
  else if maxInFlight ctx.queueSettings queue ctx.tenantId ≤ runsInFlight queue ctx.tenantId then
    .error .quotaExceeded
  else if queue.queueCap ctx.queueSettings ctx.tenantId ≤ queue.depth ctx.tenantId then
    .error .quotaExceeded
  else .ok ()

def queuedRunRecord (ctx : Context) (body : RunCreate) (prepared : Prepared) (checked : Checked) :
    RunRecord where
  runId := prepared.runId
  request := checked.request
  taskClass := checked.taskClass
  status := "queued"
  createdAt := ctx.now
  tenantId := ctx.tenantId
  hasGoal := body.goal.isSome
  mode := some body.mode.text
  workspaceId := body.workspaceId
  workdir := some prepared.workdir.path.str

/-- The request that `enqueue_async_run` dumps. -/
def asyncRequest (ctx : Context) (body : RunCreate) (prepared : Prepared) (checked : Checked) :
    AsyncRunRequest :=
  let runsRoot := (ctx.root.join "runs").join ctx.tenantId
  { runId := prepared.runId
    tenantId := ctx.tenantId
    goal := body.goal
    request := checked.request
    taskClass := some (if body.taskClass.getD "" ≠ "" then body.taskClass.getD ""
      else checked.taskClass)
    criteria := checked.criteria
    budget := checked.budget
    workdir := prepared.workdir.path
    script := body.script
    arm := body.arm
    approveTools := ctx.mayExec
    skillsRoot := ctx.skillsRoot
    factsRoot := ctx.factsRoot
    runsRoot
    indexPath := runsRoot.join "skill_index.db"
    modelConfig := prepared.modelConfig
    maxCriterionTimeoutS := some ctx.maxCriterionTimeoutS
    mode := body.mode.text
    action := "start" }

/-- `run_id` and how long the caller waits for it. -/
structure Accepted where
  runId : String
  taskClass : String
  wait : Option Number
  deriving DecidableEq

/-- `_enqueue_run` of a creation, up to the enqueue. A refused enqueue releases the quota gauge,
which the admission by the queue's numbers has not moved, and nothing else. -/
def enqueueRun (ctx : Context) (body : RunCreate) (headers : WaitHeaders) (prepared : Prepared)
    (checked : Checked) (stores : Stores) : Stores × Except Refusal Accepted :=
  let waitMode := if ctx.apiDefaultAsync && !body.modeSet then RunMode.async else body.mode
  match waitSeconds ctx.float headers waitMode ctx.apiSyncWaitS with
  | .error refusal => (stores, .error refusal)
  | .ok wait =>
    -- `max_queue_depth` and `max_in_flight` write the tenant's rows before they read.
    let queue := stores.queue.ensureTenant ctx.queueSettings ctx.tenantId
    match admitRun ctx queue with
    | .error refusal => ({ stores with queue }, .error refusal)
    | .ok _ =>
      let record := queuedRunRecord ctx body prepared checked
      let runs := stores.runs.upsert (prepared.key ctx) record fun _ => record
      if !ctx.eventsWritable then ({ stores with queue, runs }, .error .osError)
      else
        let event : RunEvent := ⟨ctx.tenantId, prepared.runId, "run.queued",
          [("mode", body.mode.text), ("action", "start")]⟩
        let events := stores.events ++ [event]
        let item := Worker.queueItem ctx.python (asyncRequest ctx body prepared checked)
        let (queue, enqueued) := queue.enqueue ctx.queueSettings ctx.now item false
        match enqueued with
        | .error error => ({ stores with queue, runs, events }, .error (.queueError error))
        | .ok _ => ({ stores with queue, runs, events }, .ok ⟨prepared.runId, checked.taskClass, wait⟩)

/-- `RunService.create` up to the enqueue: what comes behind it waits and reads. -/
def create (ctx : Context) (body : RunCreate) (headers : WaitHeaders) (stores : Stores) :
    Stores × Except Refusal Accepted :=
  match prepare ctx stores body with
  | .error refusal => (stores, .error refusal)
  | .ok prepared =>
    match stores.registry.insert (prepared.key ctx) (reservation ctx body prepared) with
    | none => (stores, .error .runIdExists)
    | some registry =>
      let stores := { stores with registry }
      match check ctx body prepared with
      | .error refusal => (stores, .error refusal)
      | .ok checked => enqueueRun ctx body headers prepared checked stores

end Recertia.Api
