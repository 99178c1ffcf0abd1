import Mathlib.Data.List.Basic
import Recertia.Contract.Budget
import Recertia.Contract.Criteria
import Recertia.Lib.Fallible

/-! The audited task state of a multi-round run, and the compare-and-swap by which an auditor's
delta changes it. -/
namespace Recertia.Mea

open Graph (BudgetFields TaskCriterion)

/-- The kinds of an artifact that an audit writes. -/
inductive ArtifactKind
  | screenshot | har | terminalLog | diff | file | json | text | other
  deriving DecidableEq, Repr

structure ArtifactRef where
  kind : ArtifactKind
  ref : String
  description : Option String := none
  sha256 : Option String := none
  deriving DecidableEq, Repr

inductive ProvenanceSource
  | meaLoop | trajectoryImport | synthetic | operator | externalDemo
  deriving DecidableEq, Repr

structure ProvenanceBundle where
  source : ProvenanceSource
  sourceRef : Option String := none
  capturedAt : Option Int := none
  runId : Option String := none
  notes : List String := []
  deriving DecidableEq, Repr

/-- A decision rests on one piece of evidence at least. -/
structure VerifiedDecision where
  decisionId : String
  statement : String
  evidenceRefs : List ArtifactRef
  verifiedAt : Int
  applicability : Option String := none
  revalidationRule : Option String := none
  evidenced : evidenceRefs ≠ []
  deriving DecidableEq

structure FailedApproach where
  approachId : String
  description : String
  observedFailure : String
  evidenceRefs : List ArtifactRef := []
  recordedAt : Int
  deriving DecidableEq

structure Blocker where
  blockerId : String
  description : String
  sinceVersion : ℕ
  evidenceRefs : List ArtifactRef := []
  deriving DecidableEq

/-- Remaining capacity: the fields of a budget without its lower bounds. -/
abbrev ResidualBudget := BudgetFields

structure AuditedTaskState where
  stateId : String
  goalId : String
  version : ℕ
  objective : String
  acceptanceCriteria : List TaskCriterion
  criteriaSnapshotHash : String
  isolationPolicyRef : String := "container_default"
  acceptedCommit : Option String := none
  verifiedDecisions : List VerifiedDecision := []
  failedApproaches : List FailedApproach := []
  currentBlockers : List Blocker := []
  currentPhase : String := "intake"
  evidenceRefs : List ArtifactRef := []
  budgetResidual : ResidualBudget := {}
  lastAuditorReportId : Option String := none
  provenance : ProvenanceBundle
  updatedAt : Int
  roundsConsumed : ℕ := 0
  maxRounds : ℕ := 12
  roundsWithinCap : roundsConsumed ≤ maxRounds
  deriving DecidableEq

/-- The change that an auditor proposes. -/
structure AuditorDelta where
  reportId : String
  parentVersion : ℕ
  proposedVersion : ℕ
  verifiedDecisionsAdded : List VerifiedDecision := []
  failedApproachesAdded : List FailedApproach := []
  blockersSet : List Blocker := []
  blockersCleared : List String := []
  currentPhase : Option String := none
  acceptedCommit : Option String := none
  evidenceRefsAdded : List ArtifactRef := []
  criteriaSnapshotHash : String
  isolationPolicyRef : String
  budgetResidual : ResidualBudget
  producedAt : Int
  versionAdvances : proposedVersion = parentVersion + 1
  deriving DecidableEq

/-- Why a delta is not applied. -/
inductive Rejection
  | casMismatch (version parent : ℕ)
  | criteriaSnapshotHashDrift
  | isolationPolicyRefMismatch (state delta : String)
  | isolationPolicyRefEmpty
  | maxRoundsExceeded (rounds maxRounds : ℕ)
  deriving DecidableEq, Repr

/-- `delta.current_phase or state.current_phase` -/
def phaseAfter (delta : Option String) (current : String) : String :=
  match delta with
  | none => current
  | some phase => if phase = "" then current else phase

def applyAuditorDelta (state : AuditedTaskState) (delta : AuditorDelta) :
    Except Rejection AuditedTaskState :=
  if delta.parentVersion ≠ state.version then
    .error (.casMismatch state.version delta.parentVersion)
  else if delta.criteriaSnapshotHash ≠ state.criteriaSnapshotHash then
    .error .criteriaSnapshotHashDrift
  else if delta.isolationPolicyRef ≠ state.isolationPolicyRef then
    .error (.isolationPolicyRefMismatch state.isolationPolicyRef delta.isolationPolicyRef)
  else if delta.isolationPolicyRef = "" then .error .isolationPolicyRefEmpty
  else if h : state.maxRounds < state.roundsConsumed + 1 then
    .error (.maxRoundsExceeded (state.roundsConsumed + 1) state.maxRounds)
  else
    let remainingBlockers := state.currentBlockers.filter fun b =>
      !delta.blockersCleared.contains b.blockerId
    .ok { state with
      version := delta.proposedVersion
      verifiedDecisions := state.verifiedDecisions ++ delta.verifiedDecisionsAdded
      failedApproaches := state.failedApproaches ++ delta.failedApproachesAdded
      currentBlockers := remainingBlockers ++ delta.blockersSet
      currentPhase := phaseAfter delta.currentPhase state.currentPhase
      acceptedCommit := delta.acceptedCommit.or state.acceptedCommit
      evidenceRefs := state.evidenceRefs ++ delta.evidenceRefsAdded
      budgetResidual := delta.budgetResidual
      lastAuditorReportId := some delta.reportId
      updatedAt := delta.producedAt
      roundsConsumed := state.roundsConsumed + 1
      roundsWithinCap := Nat.le_of_not_lt h }

/-- The state that a list of deltas leads to. -/
def foldDeltas (initial : AuditedTaskState) (deltas : List AuditorDelta) :
    Except Rejection AuditedTaskState :=
  deltas.foldlM applyAuditorDelta initial

/-- What an accepted delta does to the version, the rounds and the identity of the state. -/
theorem applyAuditorDelta_spec {state next : AuditedTaskState} {delta : AuditorDelta}
    (h : applyAuditorDelta state delta = .ok next) :
    delta.parentVersion = state.version ∧ next.version = state.version + 1 ∧
      next.roundsConsumed = state.roundsConsumed + 1 ∧ next.stateId = state.stateId := by
  unfold applyAuditorDelta at h
  split at h
  · cases h
  · rename_i hparent
    have hversion : delta.parentVersion = state.version := by simpa using hparent
    iterate 4
      split at h
      · cases h
    have hnext := Except.ok.inj h
    subst hnext
    exact ⟨hversion, by rw [← hversion]; exact delta.versionAdvances, rfl, rfl⟩

theorem foldDeltas_append {initial s : AuditedTaskState} {deltas : List AuditorDelta}
    (h : foldDeltas initial deltas = .ok s) (delta : AuditorDelta) :
    foldDeltas initial (deltas ++ [delta]) = applyAuditorDelta s delta := by
  unfold foldDeltas at h ⊢
  rw [List.foldlM_append, h]
  change (applyAuditorDelta s delta).bind pure = applyAuditorDelta s delta
  cases applyAuditorDelta s delta <;> rfl

theorem foldDeltas_stateId {initial s : AuditedTaskState} {deltas : List AuditorDelta}
    (h : foldDeltas initial deltas = .ok s) : s.stateId = initial.stateId := by
  induction deltas generalizing initial with
  | nil =>
    cases h
    rfl
  | cons delta deltas ih =>
    unfold foldDeltas at h
    rw [List.foldlM_cons] at h
    obtain ⟨next, hnext, hrest⟩ := Fallible.bind_eq_ok.mp h
    rw [ih hrest, (applyAuditorDelta_spec hnext).2.2.2]

end Recertia.Mea
