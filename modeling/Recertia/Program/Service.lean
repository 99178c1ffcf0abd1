import Recertia.Api.RunService
import Recertia.Program.Contract

/-! `ProgramService`: what each operation computes from the program that it reads. -/
namespace Recertia.Program

open Api (RunRecord)
open Graph (TaskCriterion)
open Worker (Goal)

inductive ServiceError
  | forbidden (action : String)
  | notFound (message : String)
  | configError (message : String)
  | materialize (error : MaterializeError)
  | conflict (message : String)
  | preconditionRequired
  | preconditionFailed (stored : ℕ)
  | quotaExceeded
  /-- a validation error that the service does not translate -/
  | invalid
  | idempotencyMismatch
  | idempotencyInProgress
  | stateCorrupt
  deriving DecidableEq, Repr

/-- What an operation finds around it. -/
structure Env where
  permits : String → Bool
  /-- `runtime.runs` of the tenant -/
  runs : String → Option RunRecord
  /-- `criteria_hash` of `load_from_checkpoints` -/
  loadedHash : String → Option String
  py : Graph.Platform
  criteriaHash : List TaskCriterion → String
  /-- `max_cost_usd` of `resolve_run_budget`; nothing where it raises -/
  runBudget : Goal → Option (Option ℚ)
  now : Int

/-- `rec.terminal or rec.status` -/
def runTerminal (rec : RunRecord) : String :=
  match rec.terminal with
  | none => rec.status
  | some terminal => Worker.textOrElse terminal rec.status

/-- The status of a step in flight that the record of its run gives. -/
def refreshedStatus (rec : RunRecord) (step : StepData) : StepStatus :=
  let terminal := runTerminal rec
  if step.acceptanceGate.terminalIn.contains terminal then .succeeded
  else if terminal = "queued" ∨ rec.status = "queued" then .queued
  else if terminal = "running" ∨ rec.status = "running" then .running
  else if terminal ≠ "" then .failed
  else step.status

/-- The record of the run that a step in flight is bound to. -/
def flightRecord (env : Env) (step : StepData) : Option RunRecord :=
  if step.status.inFlight then (step.currentRunId.filter (· ≠ "")).bind env.runs else none

def refreshFlight (env : Env) (step : StepData) : StepData :=
  match flightRecord env step with
  | none => step
  | some rec => { step with status := refreshedStatus rec step }

def readyStep (prog : MigrationProgram) (step : MigrationStep) : StepData :=
  if step.status = .planned ∧ stepIsReady prog step then { step.toStepData with status := .ready }
  else step.toStepData

def settleStatus (prog : MigrationProgram) : ProgramStatus :=
  if prog.status = .active ∨ prog.status = .blocked then
    if prog.steps.any fun s => s.status = .failed then .blocked
    else if prog.steps ≠ [] ∧ prog.steps.all fun s => s.status.done then .completed
    else .active
  else prog.status

def refreshStepStatuses (env : Env) (prog : MigrationProgram) : MigrationProgram :=
  let refreshed := prog.mapSteps fun s =>
    readyStep prog { s with toStepData := refreshFlight env s.toStepData }
  let settled := { refreshed with status := settleStatus refreshed }
  settled.mapSteps (readyStep settled)

structure StepRunBody where
  planOnly : Bool := false
  workdir : Option String := none
  workspaceId : Option String := none
  bindRunId : Option String := none
  idempotencyKey : Option String := none
  deriving DecidableEq, Repr

def conflictUnless (allowed : Bool) (message : String) : Except ServiceError Unit :=
  if allowed then .ok () else .error (.conflict message)

def orRaise {α : Type} (error : ServiceError) : Option α → Except ServiceError α
  | none => .error error
  | some a => .ok a

def liftMaterialize {α : Type} : Except MaterializeError α → Except ServiceError α
  | .error e => .error (.materialize e)
  | .ok a => .ok a

/-- The checks of `_apply_run_step` ahead of the hash: the goal, and the hash of its preview. -/
def planStep (env : Env) (body : StepRunBody) (prog : MigrationProgram) (step : MigrationStep) :
    Except ServiceError String := do
  let goal ← liftMaterialize (materializeStepGoal prog step)
  let _ ← liftMaterialize
    (assertGp0ExecutionPrereqs prog step body.workdir body.workspaceId body.planOnly)
  if (stressStep prog step goal).any fun w => w.severity = .block then
    throw (.configError "blocked by stress")
  let stepCap ← orRaise .invalid (env.runBudget goal)
  let exhausted : Bool := match prog.budget.bind ProgramBudget.maxCostUsd with
    | none => false
    | some maxCostUsd =>
      let remaining := maxCostUsd - (prog.budget.map ProgramBudget.spentCostUsd).getD 0
      remaining ≤ 0 || stepCap.any fun need => remaining < need
  if exhausted then throw .quotaExceeded
  orRaise .invalid (previewHash env.py env.criteriaHash goal)

/-- The checks of a bind, down to the record of the run. -/
def checkBind (env : Env) (prog : MigrationProgram) (step : MigrationStep)
    (previewedHash : Option String) (ph runId : String) : Except ServiceError RunRecord := do
  let _ ← conflictUnless (prog.status = .active) "program is not active"
  let _ ← conflictUnless (stepIsReady prog step || step.status = .failed || step.status = .ready ||
    step.status = .planned) "step is not runnable"
  let _ ← conflictUnless ((previousStep prog step).all fun prev => prev.status.done)
    "previous step not succeeded"
  let rec' ← orRaise (.notFound "run not found for tenant") (env.runs runId)
  let previewed := previewedHash.getD ""
  if previewed = "" then
    throw (.configError "preview step before bind (missing criteria_preview_hash)")
  let _ ← conflictUnless (ph = previewed)
    "goal changed since preview; re-run preview before bind"
  let runHash := rec'.criteriaHash.or (env.loadedHash runId)
  let _ ← conflictUnless (runHash.all fun hash => hash = ph)
    "bound run criteria_hash does not match step criteria_preview_hash"
  let gate := step.acceptanceGate.terminalIn
  let _ ← conflictUnless (runHash.isSome || !(rec'.terminal.any gate.contains ||
    gate.contains rec'.status)) "terminal run missing criteria_hash; cannot verify bind integrity"
  return rec'

def bindStatus (rec : RunRecord) (gate : List String) : StepStatus :=
  let terminal := runTerminal rec
  if gate.contains terminal then .succeeded
  else if terminal = "queued" ∨ terminal = "running" ∨ rec.status = "queued" ∨
      rec.status = "running" then
    if rec.status = "running" then .running else .queued
  else .failed

def allDone (prog : MigrationProgram) : Bool := prog.steps.all fun s => s.status.done

/-- The program with the run bound to the step. -/
def bindRun (env : Env) (prog : MigrationProgram) (step : MigrationStep) (rec : RunRecord)
    (runId : String) : MigrationProgram :=
  let status := bindStatus rec step.acceptanceGate.terminalIn
  let runIds := if step.runIds.contains runId then step.runIds else step.runIds ++ [runId]
  let prog := replaceStep prog step.stepId
    { step.toStepData with runIds, currentRunId := some runId, status }
  match status with
  | .failed => { prog with status := .blocked }
  | .succeeded =>
    refreshStepStatuses env { prog with status := if allDone prog then .completed else .active }
  | _ => prog

/-- What a call of `_apply_run_step` saves and answers. -/
inductive Applied
  | planned (save : MigrationProgram)
  | idempotent (runId : String)
  | bound (save : MigrationProgram) (runId : String)

/-- `later` is what the call finds when it has checked the bind. -/
def applyRunStep (env later : Env) (body : StepRunBody) (prog : MigrationProgram)
    (step : MigrationStep) : Except ServiceError Applied := do
  let ph ← planStep env body prog step
  let hashed : MigrationStep := { step with criteriaPreviewHash := some ph }
  let prog := replaceStep prog step.stepId hashed.toStepData
  match body.planOnly, body.bindRunId with
  | false, some runId =>
    let rec' ← checkBind env prog hashed step.criteriaPreviewHash ph runId
    if step.currentRunId = some runId then return .idempotent runId
    let _ ← conflictUnless (!(step.status.inFlight && step.currentRunId.any (· ≠ "")))
      "step already has an in-flight run"
    return .bound (bindRun later prog hashed rec' runId) runId
  | _, _ => return .planned prog

structure StepPatch where
  title : Option String := none
  goal : Option Goal := none
  freezePaths : Option (List String) := none
  mutatePaths : Option (List String) := none
  role : Option StepRole := none
  externalHandoff : Option ExternalHandoff := none

/-- An operation on a stored program with its payload and, where it leaves the process, the answer
of git. -/
inductive Operation
  | get
  | replace (body : ProgramFields) (ifMatch : Option ℕ)
  | accept (ackDisclaimer : Bool)
  | abandon
  | patchStep (stepId : String) (body : StepPatch)
  | previewStep (stepId : String)
  | runStep (stepId : String) (body : StepRunBody)
  | skipStep (stepId : String) (note : String)
  | bindRepo (binding : RepoBinding) (root : Except String String)
  | recordTip (stepId : String) (useBindingRoot : Bool) (sha : Except String String)
  | seedWorkdir (stepId : String) (checkout : Except String String)

/-- What an operation saves, and the error that it ends with. -/
structure Computed where
  save : Option MigrationProgram := none
  error : Option ServiceError := none

def fail (error : ServiceError) : Computed := { error := some error }

def save (prog : MigrationProgram) : Computed := { save := some prog }

def withStep (prog : MigrationProgram) (stepId : String) (f : MigrationStep → Computed) :
    Computed :=
  match findStep prog stepId with
  | none => fail (.notFound "step not found")
  | some step => f step

/-- `_assert_freeze_allowed`: sealing is enabled at intake. -/
def hardFreezeRuntimeReady : Bool := true

def freezeAllowed (enforcement : FreezeEnforcement) : Bool :=
  enforcement ≠ .hard || hardFreezeRuntimeReady

def sameStatuses (p q : MigrationProgram) : Bool :=
  p.status = q.status && p.steps.map (fun s => s.status) = q.steps.map (fun s => s.status)

/-- `get`: a refresh changes nothing but statuses, and only a change is saved. -/
def get (env : Env) (prog : MigrationProgram) : Computed :=
  let refreshed := refreshStepStatuses env prog
  if sameStatuses refreshed prog then {} else save refreshed

def replace (body : ProgramFields) (ifMatch : Option ℕ) (current : MigrationProgram) : Computed :=
  match ifMatch with
  | none => fail .preconditionRequired
  | some version =>
    if version ≠ current.version then fail (.preconditionFailed current.version)
    else if current.status ≠ .draft then fail (.conflict "only draft programs can be replaced")
    else if !freezeAllowed body.freezeEnforcement then
      fail (.configError "freeze_enforcement=hard is not available")
    else if h : (body.steps.map MigrationStep.ordinal).Nodup ∧
        (body.steps.map MigrationStep.stepId).Nodup then
      save { current with toProgramFields := body, linearOrdinalsUnique := h }
    else fail (.configError "invalid program")

def accept (env : Env) (ackDisclaimer : Bool) (prog : MigrationProgram) : Computed :=
  if !ackDisclaimer then fail (.configError "disclaimer must be acknowledged")
  else if !freezeAllowed prog.freezeEnforcement then
    fail (.configError "freeze_enforcement=hard is not available")
  else if prog.status ≠ .draft then fail (.conflict "only draft programs can be accepted")
  else if prog.steps = [] then fail (.configError "program has no steps")
  else if prog.handoff = .gitTip ∧ prog.repoBinding = none then
    fail (.configError "handoff=git_tip requires a registered repo_binding before accept")
  else if prog.handoff = .copyForward then
    fail (.configError "handoff=copy_forward is not supported; use git_tip")
  else if prog.steps.any fun s => s.goal.desired.isEmpty then
    fail (.configError "step missing goal")
  else save (refreshStepStatuses env
    { prog with status := .active, disclaimerAckedAt := some env.now })

def abandon (prog : MigrationProgram) : Computed := save { prog with status := .abandoned }

def patchStep (stepId : String) (body : StepPatch) (prog : MigrationProgram) : Computed :=
  withStep prog stepId fun step =>
    if step.status.inFlight || step.status = .succeeded then
      fail (.conflict "step goal is immutable after run bind / success")
    else
      save (replaceStep prog stepId { step.toStepData with
        title := body.title.getD step.title
        goal := body.goal.getD step.goal
        goalRevision := if body.goal.isSome then step.goalRevision + 1 else step.goalRevision
        criteriaPreviewHash := if body.goal.isSome then none else step.criteriaPreviewHash
        freezePaths := body.freezePaths.getD step.freezePaths
        mutatePaths := body.mutatePaths.getD step.mutatePaths
        role := body.role.getD step.role
        externalHandoff := body.externalHandoff.or step.externalHandoff })

def previewStep (env : Env) (stepId : String) (prog : MigrationProgram) : Computed :=
  withStep prog stepId fun step =>
    match materializeStepGoal prog step with
    | .error e => fail (.materialize e)
    | .ok goal =>
      match previewHash env.py env.criteriaHash goal with
      | none => fail .invalid
      | some ph =>
        if step.criteriaPreviewHash = some ph then {}
        else save (replaceStep prog stepId { step.toStepData with criteriaPreviewHash := some ph })

/-- `_load_step` reads the program and refreshes it. -/
def loadStep (env : Env) (prog : MigrationProgram) (stepId : String) :
    Option (MigrationProgram × MigrationStep) :=
  let refreshed := refreshStepStatuses env prog
  (findStep refreshed stepId).map fun step => (refreshed, step)

/-- A call without a key. -/
def runStep (env later : Env) (stepId : String) (body : StepRunBody) (prog : MigrationProgram) :
    Computed :=
  match loadStep env prog stepId with
  | none => fail (.notFound "step not found")
  | some (refreshed, step) =>
    match applyRunStep env later body refreshed step with
    | .error error => fail error
    | .ok (.planned next) => save next
    | .ok (.idempotent _) => {}
    | .ok (.bound next _) => save next

def skipStep (env : Env) (stepId : String) (note : String) (prog : MigrationProgram) : Computed :=
  if Text.strip note = "" then fail (.configError "skip requires a non-empty note")
  else if prog.status ≠ .active ∧ prog.status ≠ .blocked then
    fail (.conflict "program not active")
  else withStep prog stepId fun step =>
    if step.status.inFlight || step.status = .succeeded then
      fail (.conflict "cannot skip step in current status")
    else
      let prog := replaceStep prog stepId
        { step.toStepData with status := .skipped, skipNote := some (Text.strip note) }
      save (refreshStepStatuses env
        { prog with status := if allDone prog then .completed else .active })

def bindRepo (binding : RepoBinding) (root : Except String String) (prog : MigrationProgram) :
    Computed :=
  match root with
  | .error message => fail (.configError message)
  | .ok _ => save { prog with repoBinding := some binding, handoff := .gitTip }

def recordTip (stepId : String) (useBindingRoot : Bool) (sha : Except String String)
    (prog : MigrationProgram) : Computed :=
  withStep prog stepId fun step =>
    if !(step.status.inFlight || step.status = .succeeded || step.status = .ready ||
        step.status = .planned) then
      fail (.conflict "step cannot record tip in this status")
    else if useBindingRoot ∧ prog.repoBinding = none then
      fail (.configError "no repo_binding registered")
    else match sha with
      | .error message => fail (.configError message)
      | .ok sha =>
        let handoff := step.externalHandoff.getD {}
        save (replaceStep prog stepId { step.toStepData with
          externalHandoff := some { handoff with headSha := some sha } })

/-- The failure mark of `seed_workdir`. -/
def seedFailure (prog : MigrationProgram) (step : MigrationStep) : MigrationProgram :=
  { replaceStep prog step.stepId { step.toStepData with status := .failed } with
    status := .blocked }

def seedWorkdir (stepId : String) (checkout : Except String String) (prog : MigrationProgram) :
    Computed :=
  withStep prog stepId fun step =>
    let refused (message : String) : Computed :=
      { save := some (seedFailure prog step), error := some (.configError message) }
    if prog.handoff ≠ .gitTip then refused "program handoff is not git_tip"
    else if prog.repoBinding = none then refused "unregistered repo cannot use git_tip"
    else match checkout with
      | .error message => refused message
      | .ok _ => {}

/-- The action that an operation requires. -/
def Operation.action : Operation → String
  | .get => "programs.read"
  | .previewStep _ => "programs.read"
  | _ => "programs.write"

def Operation.compute (env : Env) (op : Operation) (prog : MigrationProgram) : Computed :=
  if !env.permits op.action then fail (.forbidden op.action)
  else match op with
    | .get => Program.get env prog
    | .replace body ifMatch => Program.replace body ifMatch prog
    | .accept ackDisclaimer => Program.accept env ackDisclaimer prog
    | .abandon => Program.abandon prog
    | .patchStep stepId body => Program.patchStep stepId body prog
    | .previewStep stepId => Program.previewStep env stepId prog
    | .runStep stepId body => Program.runStep env env stepId body prog
    | .skipStep stepId note => Program.skipStep env stepId note prog
    | .bindRepo binding root => Program.bindRepo binding root prog
    | .recordTip stepId useBindingRoot sha => Program.recordTip stepId useBindingRoot sha prog
    | .seedWorkdir stepId checkout => Program.seedWorkdir stepId checkout prog

/-- `create`: the client's steps as they are. -/
def create (tenantId programId : String) (body : ProgramFields) :
    Except ServiceError MigrationProgram :=
  if !freezeAllowed body.freezeEnforcement then
    .error (.configError "freeze_enforcement=hard is not available")
  else if h : (body.steps.map MigrationStep.ordinal).Nodup ∧
      (body.steps.map MigrationStep.stepId).Nodup then
    .ok { toProgramFields := body, tenantId, programId, linearOrdinalsUnique := h }
  else .error .invalid

/-- A step of a pack: its status and its runs are not the client's. -/
structure PackStep where
  stepId : String
  ordinal : ℕ
  title : String
  role : StepRole
  goal : Goal
  freezePaths : List String
  mutatePaths : List String

def PackStep.step (raw : PackStep) : MigrationStep where
  stepId := raw.stepId
  ordinal := raw.ordinal
  title := raw.title
  role := raw.role
  goal := raw.goal
  freezePaths := raw.freezePaths
  mutatePaths := raw.mutatePaths

def createFromPack (tenantId programId title intent taskClass : String) (steps : List PackStep) :
    Except ServiceError MigrationProgram :=
  create tenantId programId { title, intent, taskClass, steps := steps.map PackStep.step }

end Recertia.Program
