import Recertia.Worker.AsyncRequest

/-! The two executors of a queued run: `AsyncRunWorker._run` in the API process and
`execute_claim` in the standalone worker, each up to the orchestrator it enters. -/
namespace Recertia.Worker

open Json (PyValue PyDict)
open PosixPath (PurePath)
open Graph (Arm Budget TaskCriterion)

/-- A task has a goal or a non-blank request. -/
structure Task where
  taskId : String
  goal : Option Goal := none
  request : Option String := none
  taskClass : Option String := none
  submittedBy : String
  requireGoalOrRequest : goal.isSome ∨ ∃ r ∈ request, Text.strip r ≠ ""

/-- What building the orchestrator can raise. -/
inductive WiringError
  | rootBusy
  | openFailed
  | modelConfigError
  deriving DecidableEq, Repr

/-- Why an executor returns or raises before it has entered the orchestrator. -/
inductive Refusal
  | cancelled
  | invalidTask
  | invalidTenantId
  | configError
  | wiring (error : WiringError)
  | workspaceBusy
  | runIdExists
  | noCheckpoint
  | unsupportedKind
  | load (error : LoadError)
  | mkdirFailed
  | unsupportedArm
  | invalidScript
  deriving DecidableEq, Repr

structure Principal where
  subject : String
  tenant : String
  scopes : List String
  deriving DecidableEq, Repr

/-- The arguments of `build_default_orchestrator`, with the model configuration it settles on. -/
structure Wiring where
  runsRoot : PurePath
  skillsRoot : PurePath
  factsRoot : PurePath
  indexPath : PurePath
  approveDefaultTools : Bool
  principal : Principal
  modelConfig : ModelConfig
  runtimeRoot : PurePath

structure Orchestrator extends Wiring where
  maxCriterionTimeoutS : Option Int := none

/-- What `start` puts in the state of a new run. -/
structure RunState where
  task : Task
  criteria : List TaskCriterion
  budget : Budget
  arm : Arm

/-- The latest checkpoint of a run below a runs root. -/
abbrev RunStore := PurePath → String → Option RunState

inductive Decision
  | start
  | resume
  deriving DecidableEq, Repr

/-- An orchestrator that has been entered: with a new state, or with the checkpointed one. -/
structure Entry where
  orchestrator : Orchestrator
  decision : Decision
  state : RunState
  workdir : PurePath
  script : Option (List String)
  maxSteps : Option Int := none

/-- What a process finds around it: its environment, and what the operating system and the
other processes let it do. -/
structure Host where
  loadModelConfig : Option ModelConfig
  tenantSkills : Bool
  opens : Wiring → Except WiringError Unit
  makesDir : PurePath → Bool
  workspaceBusy : PurePath → Bool
  cancelledEarly : Bool
  cancelledLate : Bool

def refuseIf (refused : Bool) (refusal : Refusal) : Except Refusal Unit :=
  if refused then .error refusal else .ok ()

def resolveTaskClass (explicit goalTaskClass : Option String) : String :=
  match [explicit, goalTaskClass].find? fun candidate =>
      candidate.any fun text => Text.strip text ≠ "" with
  | some (some text) => Text.strip text
  | _ => "repo-chore"

def Task.create (taskId : String) (goal : Option Goal) (request taskClass : Option String)
    (submittedBy : String) : Except Refusal Task :=
  if h : goal.isSome ∨ ∃ r ∈ request, Text.strip r ≠ "" then
    .ok { taskId, goal, request, taskClass, submittedBy, requireGoalOrRequest := h }
  else .error .invalidTask

def tenantSkillsRoot (host : Host) (controlRoot shared : PurePath) (tenantId : String) :
    Except Refusal PurePath :=
  match Queue.tenantId tenantId with
  | none => .error .invalidTenantId
  | some ident =>
    if !host.tenantSkills then .ok shared
    else
      let path := ((controlRoot.join "tenants").join ident).join "skills"
      if host.makesDir path then .ok path else .error .mkdirFailed

/-- The scopes of a worker's key. -/
def workerScopes (approveTools : Bool) : List String :=
  if approveTools then ["runs", "exec"] else ["runs"]

/-- `model_config if model_config is not None else load_model_config()` -/
def settledConfig (host : Host) (modelConfig : Option ModelConfig) : Except Refusal ModelConfig :=
  orError .configError (modelConfig.or host.loadModelConfig)

def buildDefaultOrchestrator (host : Host) (modelConfig : Option ModelConfig)
    (wiring : ModelConfig → Wiring) : Except Refusal Orchestrator := do
  let config ← settledConfig host modelConfig
  match host.opens (wiring config) with
  | .error error => .error (.wiring error)
  | .ok _ => return { wiring config with }

def Orchestrator.start (orchestrator : Orchestrator) (runs : RunStore) (runId : String)
    (state : RunState) (workdir : PurePath) (script : Option (List String))
    (maxSteps : Option Int := none) : Except Refusal Entry :=
  match runs orchestrator.runsRoot runId with
  | some _ => .error .runIdExists
  | none => .ok { orchestrator, decision := .start, state, workdir, script, maxSteps }

def Orchestrator.resume (orchestrator : Orchestrator) (runs : RunStore) (runId : String)
    (workdir : PurePath) (script : Option (List String)) : Except Refusal Entry :=
  match runs orchestrator.runsRoot runId with
  | none => .error .noCheckpoint
  | some state => .ok { orchestrator, decision := .resume, state, workdir, script }

/-- The request, or the context of the goal where there is no request. -/
def contextualRequest (req : AsyncRunRequest) : Option String :=
  match req.goal.bind fun goal => goal.context with
  | none => req.request
  | some context =>
    if context ≠ "" ∧ req.request.getD "" = "" then some context else req.request

/-- The orchestrator that `_run` opens for a request, under the ceiling of the request. -/
def AsyncRunWorker.orchestrator (host : Host) (req : AsyncRunRequest) :
    Except Refusal Orchestrator := do
  let controlRoot := req.runsRoot.parent.parent
  let skills ← tenantSkillsRoot host controlRoot req.skillsRoot req.tenantId
  let built ← buildDefaultOrchestrator host req.modelConfig fun modelConfig =>
    { runsRoot := req.runsRoot, skillsRoot := skills, factsRoot := req.factsRoot
      indexPath := req.indexPath, approveDefaultTools := req.approveTools
      principal := ⟨"async-worker", req.tenantId, workerScopes req.approveTools⟩
      modelConfig, runtimeRoot := controlRoot }
  return { built with maxCriterionTimeoutS := req.maxCriterionTimeoutS }

/-- How `_run` enters its orchestrator: a start of a run that there is already resumes it. -/
def AsyncRunWorker.enter (runs : RunStore) (req : AsyncRunRequest) (task : Task)
    (orchestrator : Orchestrator) : Except Refusal Entry :=
  if req.action = "resume" then orchestrator.resume runs req.runId req.workdir req.script
  else
    let state : RunState := { task, criteria := req.criteria, budget := req.budget, arm := req.arm }
    match orchestrator.start runs req.runId state req.workdir req.script with
    | .error .runIdExists => orchestrator.resume runs req.runId req.workdir req.script
    | entered => entered

/-- `AsyncRunWorker._run` -/
def AsyncRunWorker.run (host : Host) (runs : RunStore) (req : AsyncRunRequest) :
    Except Refusal Entry := do
  let _ ← refuseIf host.cancelledEarly .cancelled
  let taskClass := resolveTaskClass req.taskClass (req.goal.bind fun goal => goal.taskClass)
  let task ← Task.create req.runId req.goal (contextualRequest req) (some taskClass) "async-worker"
  let orchestrator ← AsyncRunWorker.orchestrator host req
  let _ ← refuseIf (host.workspaceBusy req.workdir) .workspaceBusy
  let _ ← refuseIf host.cancelledLate .cancelled
  AsyncRunWorker.enter runs req task orchestrator

/-- The criterion of a payload without criteria. -/
def outputExists : PyValue :=
  .dict [("id", .str "output-exists"), ("kind", .str "command"),
    ("run", .str "test -f output.txt"), ("source", .str "caller"),
    ("weight", .float .one)]

/-- `_arm` -/
def arm : PyValue → Except Refusal Arm
  | .str "control" => .ok .control
  | .str "shadow" => .ok .shadow
  | .str "practice" => .ok .practice
  | .str "treatment" => .ok .treatment
  | _ => .error .unsupportedArm

/-- `_script` -/
def script : PyValue → Except Refusal (Option (List String))
  | .null => .ok none
  | value => (orError .invalidScript value.strings?).map some

def pathOr (py : Python) (payload : PyDict) (key : String) (default : PurePath) : PurePath :=
  .ofStr (py.str ((payload.get key).orElse (.str default.str)))

/-- The request of a payload, or the run id where it has none. -/
def claimRequest (payload : PyDict) (runId : String) : String :=
  match (payload.get "request").str? with
  | some request => if request ≠ "" then request else runId
  | none => runId

/-- The orchestrator that `execute_claim` opens for a payload. -/
def claimOrchestrator (py : Python) (host : Host) (root : PurePath) (tenantId : String)
    (payload : PyDict) : Except Refusal Orchestrator := do
  let runsRoot := (root.join "runs").join tenantId
  let approve := (payload.get "approve_tools").truthy
  let shared := pathOr py payload "skills_root" (root.join "skills")
  let skills ← tenantSkillsRoot host root shared tenantId
  buildDefaultOrchestrator host none fun modelConfig =>
    { runsRoot, skillsRoot := skills
      factsRoot := pathOr py payload "facts_root" (root.join "facts")
      indexPath := runsRoot.join "skill_index.db", approveDefaultTools := approve
      principal := ⟨"recertia-worker", tenantId, workerScopes approve⟩
      modelConfig, runtimeRoot := root }

def executeClaim (py : Python) (host : Host) (runs : RunStore) (root : PurePath)
    (claim : Queue.Claim PyDict) : Except Refusal Entry := do
  let tenantId := claim.key.tenant
  let runId := claim.key.runId
  let payload := claim.payload
  let _ ← refuseIf (claim.key.kind ≠ "run") .unsupportedKind
  let criteria ← (loadCriteria py ((payload.get "criteria").orElse (.list [outputExists]))).mapError
    .load
  let budget ← (loadBudget py (payload.get "budget")).mapError .load
  let defaultWorkdir := ((root.join "workspaces").join tenantId).join runId
  let workdir := pathOr py payload "workdir" defaultWorkdir
  let _ ← refuseIf (!host.makesDir workdir) .mkdirFailed
  let chosenArm ← arm ((payload.get "arm").orElse (.str "treatment"))
  let script ← script (payload.get "script")
  let stepCap := (payload.get "max_steps").int?
  let taskClass := (payload.get "task_class").str?
  let orchestrator ← claimOrchestrator py host root tenantId payload
  if textOr py payload "action" "start" = "resume" then
    orchestrator.resume runs runId workdir script
  else
    let task ← Task.create runId none (some (claimRequest payload runId)) taskClass
      "recertia-worker"
    orchestrator.start runs runId { task, criteria, budget, arm := chosenArm } workdir script
      stepCap

end Recertia.Worker
