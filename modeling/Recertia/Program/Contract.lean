import Recertia.Worker.AsyncRequest

/-! Migration programs: steps in a linear order, each with its goal, its gate and its run. -/
namespace Recertia.Program

open Graph (Constraint DesiredState TaskCriterion)
open Worker (Goal)

inductive ProgramStatus
  | draft | active | blocked | completed | abandoned
  deriving DecidableEq, Repr

inductive StepStatus
  | planned | ready | queued | running | succeeded | failed | skipped | cancelled
  deriving DecidableEq, Repr

/-- `status in {"succeeded", "skipped"}` -/
def StepStatus.done : StepStatus → Bool
  | .succeeded => true
  | .skipped => true
  | _ => false

/-- `status in {"queued", "running"}` -/
def StepStatus.inFlight : StepStatus → Bool
  | .queued => true
  | .running => true
  | _ => false

inductive StepRole
  | characterization | structural | behaviourLock | custom
  deriving DecidableEq, Repr

inductive HandoffMode
  | none | operatorWorkdir | copyForward | gitTip
  deriving DecidableEq, Repr

inductive FreezeEnforcement
  | advisory | hard
  deriving DecidableEq, Repr

structure ExternalHandoff where
  branch : Option String := none
  prUrl : Option String := none
  baseSha : Option String := none
  headSha : Option String := none
  note : Option String := none
  deriving DecidableEq, Repr

structure RepoBinding where
  bindingId : String := "default"
  root : String
  defaultBranch : String := "main"
  remoteUrl : Option String := none
  deriving DecidableEq, Repr

structure AcceptanceGate where
  terminalIn : List String := ["solved"]
  requireProgramBar : Bool := true
  deriving DecidableEq, Repr

structure ProgramBudget where
  maxCostUsd : Option ℚ := none
  spentCostUsd : ℚ := 0
  deriving DecidableEq

/-- What an operation can change of a step. -/
structure StepData where
  title : String
  role : StepRole := .custom
  goal : Goal
  freezePaths : List String := []
  mutatePaths : List String := []
  acceptanceGate : AcceptanceGate := {}
  status : StepStatus := .planned
  runIds : List String := []
  currentRunId : Option String := none
  criteriaPreviewHash : Option String := none
  externalHandoff : Option ExternalHandoff := none
  skipNote : Option String := none
  goalRevision : ℕ := 1

/-- A step keeps its id and its ordinal. -/
structure MigrationStep extends StepData where
  stepId : String
  ordinal : ℕ

/-- The editable fields of a program. -/
structure ProgramFields where
  title : String
  intent : String := ""
  taskClass : String := "repo-chore"
  handoff : HandoffMode := .none
  freezeEnforcement : FreezeEnforcement := .advisory
  steps : List MigrationStep := []
  programBarDesired : List DesiredState := []
  programBarConstraints : List Constraint := []

/-- Ordinals and step ids are unique. -/
structure MigrationProgram extends ProgramFields where
  tenantId : String
  programId : String
  status : ProgramStatus := .draft
  repoBinding : Option RepoBinding := none
  budget : Option ProgramBudget := none
  disclaimerAckedAt : Option Int := none
  version : ℕ := 1
  linearOrdinalsUnique : (steps.map MigrationStep.ordinal).Nodup ∧
    (steps.map MigrationStep.stepId).Nodup

/-- A copy of a program with other data in its steps. -/
def MigrationProgram.mapSteps (prog : MigrationProgram) (f : MigrationStep → StepData) :
    MigrationProgram :=
  { prog with
    steps := prog.steps.map fun s => { s with toStepData := f s }
    linearOrdinalsUnique := by
      rw [List.map_map, List.map_map]
      exact prog.linearOrdinalsUnique }

def findStep (prog : MigrationProgram) (stepId : String) : Option MigrationStep :=
  prog.steps.find? fun s => s.stepId = stepId

/-- `_replace_step` with the updated copy of one step. -/
def replaceStep (prog : MigrationProgram) (stepId : String) (updated : StepData) :
    MigrationProgram :=
  prog.mapSteps fun s => if s.stepId = stepId then updated else s.toStepData

/-- The step whose ordinal is one less. -/
def previousStep (prog : MigrationProgram) (step : MigrationStep) : Option MigrationStep :=
  prog.steps.find? fun s => s.ordinal + 1 = step.ordinal

/-- Whether a step may start a new run. -/
def stepIsReady (prog : MigrationProgram) (step : MigrationStep) : Bool :=
  prog.status = .active &&
    (step.status = .planned || step.status = .ready || step.status = .failed) &&
    (previousStep prog step).all fun prev => prev.status.done

/-! The goal that a step submits: freeze and program bar merged in, its preview hash, and the
checks that can refuse it. -/

inductive MaterializeError
  | freezeMutateOverlap (paths : List String)
  | desiredCollision (id : String)
  | constraintCollision (id : String)
  /-- the merged goal has no hard criterion left -/
  | invalidGoal
  | handoffNone
  | operatorWorkdir
  | gitTipUnbound
  | copyForward
  deriving DecidableEq, Repr

/-- `p.rstrip("/")` -/
def trimSlashes (path : String) : String :=
  String.ofList (path.toList.reverse.dropWhile (· = '/')).reverse

def freezeMutateOverlap (step : StepData) : List String :=
  let mutated := step.mutatePaths.map trimSlashes
  (((step.freezePaths.map trimSlashes).filter mutated.contains).dedup).mergeSort fun p q => p ≤ q

/-- `by_id[x.id] = x` on a dict in insertion order. -/
def putById {α : Type} (id : α → String) (x : α) : List α → List α
  | [] => [x]
  | y :: ys => if id y = id x then x :: ys else y :: putById id x ys

/-- Merges `extra` into `base`; a collision with another body raises. -/
def mergeById {α : Type} [DecidableEq α] (id : α → String) (collision : String → MaterializeError)
    (base extra : List α) : Except MaterializeError (List α) :=
  let byId := base.foldl (fun acc x => putById id x acc) []
  extra.foldlM (fun acc x =>
    if acc.any fun y => id y = id x && y ≠ x then .error (collision (id x))
    else .ok (putById id x acc)) byId

def mergeDesired := mergeById DesiredState.id .desiredCollision

def mergeConstraints := mergeById Constraint.id .constraintCollision

def materializeStepGoal (prog : MigrationProgram) (step : MigrationStep) :
    Except MaterializeError Goal := do
  let overlap := freezeMutateOverlap step.toStepData
  if overlap ≠ [] then throw (.freezeMutateOverlap overlap)
  let applyBar := step.acceptanceGate.requireProgramBar &&
    (step.role ≠ .characterization || !prog.programBarDesired.isEmpty)
  let desired ← if applyBar then mergeDesired step.goal.desired prog.programBarDesired
    else pure step.goal.desired
  let barred ← if applyBar then mergeConstraints step.goal.constraints prog.programBarConstraints
    else pure step.goal.constraints
  let constraints ←
    if prog.freezeEnforcement = .hard ∧ step.freezePaths ≠ [] then
      mergeConstraints barred [{ id := "freeze-" ++ step.stepId, kind := .mustNotModify
                                 value := .list step.freezePaths }]
    else pure barred
  if h : desired.any DesiredState.isHard = true then
    return { desired, constraints, context := step.goal.context
             strategyHint := step.goal.strategyHint
             atLeastOneHardCriterion := h
             goalId := some (Worker.textOrElse (step.goal.goalId.getD "")
               (prog.programId ++ "-" ++ step.stepId))
             taskClass := some (Worker.textOrElse (step.goal.taskClass.getD "") prog.taskClass)
             preferences := step.goal.preferences }
  else throw .invalidGoal

/-- The criteria hash of the compiled goal; nothing where the compilation raises. -/
def previewHash (py : Graph.Platform) (criteriaHash : List TaskCriterion → String) (goal : Goal) :
    Option String :=
  match Graph.compileGoal py .caller goal.toGoal with
  | .error _ => none
  | .ok criteria => some (criteriaHash criteria)

/-- A bind needs a handoff: a workdir, or work that lives in an external repository. -/
def assertGp0ExecutionPrereqs (prog : MigrationProgram) (step : MigrationStep)
    (workdir workspaceId : Option String) (planOnly : Bool) : Except MaterializeError Unit :=
  let given (text : Option String) : Bool := text.any (· ≠ "")
  let hasWorkdir := given workdir || given workspaceId
  if planOnly then .ok ()
  else match prog.handoff with
    | .none =>
      let hasExt := step.externalHandoff.any fun eh =>
        given eh.branch || given eh.prUrl || given eh.baseSha || given eh.headSha
      if !hasWorkdir && !hasExt then .error .handoffNone else .ok ()
    | .operatorWorkdir => if !hasWorkdir then .error .operatorWorkdir else .ok ()
    | .gitTip => if prog.repoBinding.isNone then .error .gitTipUnbound else .ok ()
    | .copyForward => .error .copyForward

inductive Severity
  | info | warn | block
  deriving DecidableEq, Repr

structure StressWarning where
  code : String
  severity : Severity
  deriving DecidableEq, Repr

def isVacuousCommand (d : DesiredState) : Bool :=
  match d.check with
  | .command run _ => ["true", ":", "exit 0"].contains (Text.strip run)
  | _ => false

def commandOf (d : DesiredState) : Option String :=
  match d.check with
  | .command run _ => some (Text.strip run)
  | _ => none

def stressStep (prog : MigrationProgram) (step : MigrationStep) (goal : Goal) :
    List StressWarning :=
  let warnIf (found : Bool) (code : String) (severity : Severity) : List StressWarning :=
    if found then [⟨code, severity⟩] else []
  let commands := goal.desired.filterMap commandOf
  let priors := prog.steps.filter fun s => s.ordinal < step.ordinal
  warnIf (!goal.desired.any DesiredState.isHard) "no_hard_criteria" .block ++
  warnIf (freezeMutateOverlap step.toStepData ≠ []) "freeze_mutate_overlap" .block ++
  warnIf (step.freezePaths ≠ [] && prog.freezeEnforcement = .advisory) "freeze_advisory" .info ++
  (goal.desired.filter isVacuousCommand).map (fun _ => ⟨"vacuous_command", .block⟩) ++
  warnIf (commands ≠ [] && commands.all ["python -m pytest -q", "pytest -q", "pytest"].contains)
    "generic_pytest_only" .warn ++
  warnIf (step.role = .structural && priors.length ≠ 0 &&
    !priors.any fun s => s.role = .characterization) "weak_characterization" .warn ++
  warnIf (prog.handoff = .copyForward) "missing_handoff" .warn ++
  warnIf (prog.handoff = .gitTip && prog.repoBinding.isNone) "missing_repo_binding" .block ++
  warnIf (step.acceptanceGate.requireProgramBar && step.role ≠ .characterization &&
    prog.programBarDesired = [] && prog.programBarConstraints = [] && 0 < step.ordinal)
    "program_bar_dropped" .warn

end Recertia.Program
