import Recertia.Contract.Budget
import Recertia.Contract.Goal
import Recertia.Lib.FileTree

/-! The state that every node reads and returns. -/
namespace Recertia.Graph

open FileTree (Path)

inductive Node
  | intake | retrieve | plan | fanOut | solve | validate | join | classifyFailure | evolve
  | distill | review | store | recordDeadEnd | rejectDraft | finalize
  deriving DecidableEq, Repr

inductive RouteName
  | always | abstain | fanOutStrategy | singleStrategy | preDispatchBudgetFailure
  | preValidationFailureSignal | attemptCompleted | hasBranches | noBranchesAndPassing
  | noBranchesAndFailing | mergeCompleteAndPassing | otherwise | retry | reusable | oneOff
  | approved | rejected
  deriving DecidableEq, Repr

inductive Strategy
  | apply | adapt | scratch | portfolio | decomposition | abstain
  deriving DecidableEq, Repr

def Strategy.text : Strategy → String
  | .apply => "apply"
  | .adapt => "adapt"
  | .scratch => "scratch"
  | .portfolio => "portfolio"
  | .decomposition => "decomposition"
  | .abstain => "abstain"

inductive Arm
  | treatment | control | shadow | practice
  deriving DecidableEq, Repr

inductive Terminal
  | solved | unsolved | abstained | rejected | error
  deriving DecidableEq, Repr

/-- A task has a goal or a non-blank request. -/
structure Task where
  goal : Option Goal := none
  request : Option String := none
  taskClass : Option String := none
  isEvalFixture : Bool := false
  requireGoalOrRequest : goal.isSome ∨ ∃ r ∈ request, Text.strip r ≠ ""

structure SkillCandidateRef where
  skillId : String
  version : ℕ
  score : ℚ
  deriving DecidableEq

structure MemoryBundle where
  skills : List SkillCandidateRef := []
  suppressed : Bool := false
  deriving DecidableEq

inductive BranchKind
  | portfolio | decomposition
  deriving DecidableEq, Repr

inductive BranchStatus
  | dispatched | running | succeeded | failed | timedOut
  deriving DecidableEq, Repr

/-- The statuses that a fan-in counts as received. -/
def BranchStatus.received : BranchStatus → Bool
  | .succeeded => true
  | .failed => true
  | _ => false

/-- A float: a number, an infinity, or NaN. -/
inductive Cost
  | number (q : ℚ)
  | posInf | negInf | nan
  deriving DecidableEq, Repr

def Cost.neg : Cost → Cost
  | .number q => .number (-q)
  | .posInf => .negInf
  | .negInf => .posInf
  | .nan => .nan

/-- `<` of floats: NaN is neither below nor above anything. -/
def Cost.lt : Cost → Cost → Bool
  | .number a, .number b => a < b
  | .number _, .posInf | .negInf, .number _ | .negInf, .posInf => true
  | _, _ => false

/-- `workspaceRef` is kept relative to the workdir of the run. -/
structure BranchState where
  branchId : String
  kind : BranchKind := .portfolio
  strategy : Strategy
  subtask : Option String := none
  candidate : Option SkillCandidateRef := none
  workspaceRef : Path
  status : BranchStatus := .dispatched
  budget : Budget
  spent : Spend := {}
  reserved : BudgetReservation := {}
  results : List CriterionResult := []
  selected : Bool := false
  costUsd : Option Cost := none
  ownedCriteria : List String := []

inductive MergeAction
  | proceeded | flagged | failed
  deriving DecidableEq, Repr

structure MergeAudit where
  mergeId : String
  expected : ℕ
  received : ℕ
  missing : List String := []
  action : MergeAction
  layered : Bool := false
  batches : List (List String) := []
  deriving DecidableEq

def MergeAudit.isComplete (m : MergeAudit) : Bool :=
  decide (m.expected ≤ m.received) && m.missing.isEmpty

structure WorkspaceSnapshot where
  attemptNo : ℕ
  snapshotRef : String
  restored : Bool := false
  deriving DecidableEq

inductive Reusability
  | reusable | oneOff | duplicate
  deriving DecidableEq, Repr

structure ReusabilityVerdict where
  verdict : Reusability
  parameterisable : Bool
  contextFree : Bool
  checkable : Bool
  notDuplicate : Bool
  bounded : Bool
  deriving DecidableEq

/-- The identity of a drafted skill version. -/
structure Draft where
  skillId : String
  version : ℕ
  deriving DecidableEq

structure RouteEntry where
  node : Node
  route : RouteName
  attemptNo : ℕ := 0
  deriving DecidableEq

structure RunState where
  runId : String
  task : Task
  arm : Arm := .treatment
  criteria : List TaskCriterion := []
  bundle : MemoryBundle := {}
  chosen : Option SkillCandidateRef := none
  strategy : Option Strategy := none
  attemptNo : ℕ := 0
  branches : List BranchState := []
  transcriptRef : Option String := none
  workspaceSnapshots : List WorkspaceSnapshot := []
  results : List CriterionResult := []
  resultsHistory : List (List CriterionResult) := []
  mergeAudits : List MergeAudit := []
  failureSignal : Option FailureSignal := none
  failure : Option FailureVerdict := none
  draft : Option Draft := none
  reusability : Option ReusabilityVerdict := none
  executionGuide : Option (List SkillCandidateRef) := none
  budget : Budget := default
  spent : Spend := {}
  reserved : BudgetReservation := {}
  routeLog : List RouteEntry := []
  terminal : Option Terminal := none

end Recertia.Graph
