import Recertia.Contract.RunState
import Recertia.Mea.AuditedState

/-! The binding of the multi-round loop to the graph: intake creates the audited state, and
validate audits the results and swaps it. -/
namespace Recertia.Mea

open Graph (CriterionResult RunState TaskCriterion)

inductive ExecutionStrategy
  | single | mea
  deriving DecidableEq, Repr

/-- What the policy says about the loop. -/
structure Policy where
  meaEnabled : Bool
  meaMaxRounds : ℕ
  deriving DecidableEq, Repr

/-- What a task says about the loop, its goal's part included. -/
structure MeaTask where
  taskId : String
  goalId : Option String := none
  meaOptIn : Bool := false
  executionStrategy : ExecutionStrategy := .single
  deriving DecidableEq, Repr

structure MeaActivation where
  policyEnabled : Bool
  goalOptIn : Bool
  runtimeStrategy : ExecutionStrategy
  active : Bool
  fallbackReason : Option String
  deriving DecidableEq, Repr

def resolveMeaActivation (policyMeaEnabled goalMeaOptIn : Bool)
    (runtimeStrategy : ExecutionStrategy) : MeaActivation :=
  let incomplete (reason : String) : MeaActivation :=
    { policyEnabled := policyMeaEnabled, goalOptIn := goalMeaOptIn, runtimeStrategy
      active := false, fallbackReason := some reason }
  if !policyMeaEnabled then incomplete "policy_mea_disabled"
  else if !goalMeaOptIn then incomplete "goal_not_opted_in"
  else if runtimeStrategy ≠ .mea then incomplete "runtime_strategy_not_mea"
  else { policyEnabled := true, goalOptIn := true, runtimeStrategy := .mea, active := true
         fallbackReason := none }

def shouldNoteFallback (activation : MeaActivation) : Bool :=
  !activation.active &&
    (activation.policyEnabled || activation.goalOptIn || activation.runtimeStrategy == .mea)

def resolveFromRun (task : MeaTask) (state : RunState) (policy : Option Policy) : MeaActivation :=
  resolveMeaActivation (policy.any Policy.meaEnabled) (state.task.goal.isSome && task.meaOptIn)
    task.executionStrategy

/-- `x or y` on optional texts -/
def nonEmpty? (text : Option String) : Option String := text.filter (· ≠ "")

/-- The state of version 0, from the criteria that intake has locked. -/
def createAuditedState (criteriaHash : List TaskCriterion → String) (task : MeaTask)
    (state : RunState) (policy : Option Policy) (now : Int) : AuditedTaskState where
  stateId := "ats_" ++ state.runId
  goalId := (state.task.goal.bind fun _ => nonEmpty? task.goalId).getD task.taskId
  version := 0
  objective := ((state.task.goal.bind fun goal => nonEmpty? goal.context).or
    (nonEmpty? state.task.request)).getD task.taskId
  acceptanceCriteria := state.criteria
  -- `manifest.criteria_hash`, which intake has set from the same criteria
  criteriaSnapshotHash := criteriaHash state.criteria
  budgetResidual := state.budget.toBudgetFields
  provenance := { source := .meaLoop, runId := some state.runId }
  updatedAt := now
  currentPhase := "intake"
  maxRounds := (policy.map Policy.meaMaxRounds).getD 12
  isolationPolicyRef := "container_default"
  roundsWithinCap := Nat.zero_le _

def executorConversationId (runId : String) (attemptNo : ℕ) : String :=
  runId ++ ":solve:" ++ toString attemptNo

def auditorConversationId (runId : String) (attemptNo : ℕ) : String :=
  runId ++ ":validate:" ++ toString attemptNo

def requireFreshAuditorContext (executor auditor : Option String) : Option String :=
  match auditor with
  | none => some "auditor_missing_conversation"
  | some conversation =>
    if executor = some conversation then some "auditor_shares_executor_conversation" else none

structure MeaEarlyStop where
  reason : String
  roundsConsumed : ℕ
  maxRounds : ℕ
  deriving DecidableEq, Repr

def enforceRoundBudget (state : AuditedTaskState) : Option MeaEarlyStop :=
  if state.maxRounds ≤ state.roundsConsumed then
    some ⟨"max_rounds_reached", state.roundsConsumed, state.maxRounds⟩
  else if state.budgetResidual.maxAttempts = 0 then
    some ⟨"residual_attempts_exhausted", state.roundsConsumed, state.maxRounds⟩
  else none

def criterionLog (result : CriterionResult) : ArtifactRef where
  kind := .terminalLog
  ref := "criterion:" ++ result.criterionId
  description := nonEmpty? (some result.outputExcerpt)

def verifiedDecision (now : Int) (result : CriterionResult) : VerifiedDecision where
  decisionId := result.criterionId
  statement := "criterion " ++ result.criterionId ++ " passed under validate"
  evidenceRefs := [criterionLog result]
  verifiedAt := now
  evidenced := List.cons_ne_nil _ _

def proposeValidateDelta (audited : AuditedTaskState) (state : RunState) (attemptNo : ℕ)
    (now : Int) : Except String AuditorDelta :=
  match requireFreshAuditorContext (some (executorConversationId state.runId attemptNo))
      (some (auditorConversationId state.runId attemptNo)) with
  | some gate => .error gate
  | none =>
    match enforceRoundBudget audited with
    | some stop => .error stop.reason
    | none =>
      let known := audited.verifiedDecisions.map VerifiedDecision.decisionId
      let newlyPassed := state.results.filter fun r => r.passed && !known.contains r.criterionId
      let passing := (state.results.filter CriterionResult.passed).map CriterionResult.criterionId
      let failing := (state.results.filter fun r => !r.passed).map CriterionResult.criterionId
      let existing := audited.currentBlockers.map Blocker.blockerId
      let fresh := failing.filter fun cid => !existing.contains ("crit:" ++ cid)
      let cleared := audited.currentBlockers.filter fun b =>
        (Text.dropPrefix? b.blockerId "crit:").any passing.contains
      let verified := audited.verifiedDecisions.length + newlyPassed.length
      let criteria := audited.acceptanceCriteria.length
      .ok
        { reportId := "ar_" ++ state.runId ++ "_" ++ toString (audited.version + 1)
          parentVersion := audited.version
          proposedVersion := audited.version + 1
          verifiedDecisionsAdded := newlyPassed.map (verifiedDecision now)
          blockersSet := fresh.map fun cid =>
            { blockerId := "crit:" ++ cid
              description := "criterion " ++ cid ++ " failed"
              sinceVersion := audited.version + 1 }
          blockersCleared := cleared.map Blocker.blockerId
          currentPhase := some
            (if 0 < criteria ∧ criteria ≤ verified ∧ failing = [] then "complete" else "execute")
          criteriaSnapshotHash := audited.criteriaSnapshotHash
          isolationPolicyRef := audited.isolationPolicyRef
          budgetResidual := { audited.budgetResidual with
            maxAttempts := audited.budgetResidual.maxAttempts - 1 }
          evidenceRefsAdded := newlyPassed.map criterionLog
          producedAt := now
          versionAdvances := rfl }

/-- Why an audit changes nothing: no delta was proposed, or the swap rejected it. -/
inductive AuditRefusal
  | notProposed (reason : String)
  | rejected (delta : AuditorDelta) (reason : Rejection)
  deriving DecidableEq

/-- The state and the delta of an accepted audit. -/
def applyValidateAudit (audited : AuditedTaskState) (state : RunState) (attemptNo : ℕ)
    (now : Int) : Except AuditRefusal (AuditedTaskState × AuditorDelta) :=
  match proposeValidateDelta audited state attemptNo now with
  | .error reason => .error (.notProposed reason)
  | .ok delta =>
    match applyAuditorDelta audited delta with
    | .error reason => .error (.rejected delta reason)
    | .ok next => .ok (next, delta)

theorem applyValidateAudit_spec {audited next : AuditedTaskState} {state : RunState}
    {attemptNo : ℕ} {now : Int} {delta : AuditorDelta}
    (h : applyValidateAudit audited state attemptNo now = .ok (next, delta)) :
    applyAuditorDelta audited delta = .ok next := by
  unfold applyValidateAudit at h
  split at h
  · cases h
  · split at h
    · cases h
    · rename_i happly
      cases h
      exact happly

end Recertia.Mea
