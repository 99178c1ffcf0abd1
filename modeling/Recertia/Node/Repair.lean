import Recertia.Node.Context

/-! `classify_failure` and `evolve`: assign a failure class, then restore the workspace and apply
the repair move of the class. -/
namespace Recertia.Graph

open FileTree (Tree)

def isToolFailure (ctx : NodeContext) (detail : String) : Bool :=
  if !ctx.tools && !ctx.affordances then true
  else ctx.toolMatches detail || Text.contains detail "tool=" ||
    Text.contains (Text.lower detail) "flaky"

def isEnvironmentFailure (detail : String) : Bool :=
  Text.startsWith detail "environment:" || Text.contains detail "before first productive"

def failedIds (s : RunState) : List String :=
  (s.results.filter fun r => !r.passed).map (·.criterionId)

/-- The criterion failed although it carries a proof that does not reject its negative fixture. -/
def hasInvalidProof (s : RunState) (c : TaskCriterion) : Bool :=
  (failedIds s).contains c.id && c.sensitivityProof.any fun proof => !proof.rejected

def hasInvalidSensitivityProof (s : RunState) : Bool :=
  s.criteria.any fun c => c.isRequired && hasInvalidProof s c

def invalidProofEvidence (s : RunState) : List String :=
  (s.criteria.filter (hasInvalidProof s)).map fun c =>
    c.id ++ ": sensitivity_proof.rejected=False (does not reject its own negative fixture)"

def isBudgetFailure (s : RunState) (signal : FailureSignal) : Bool :=
  signal.classHint == some .budget || decide (s.budget.maxAttempts ≤ s.spent.attempts) ||
    Text.contains signal.detail "budget exhausted"

def budgetEvidence (s : RunState) (signal : FailureSignal) : String :=
  if signal.classHint == some .budget || Text.contains signal.detail "budget exhausted" then
    signal.detail
  else "spent.attempts=" ++ toString s.spent.attempts ++ " >= budget.max_attempts=" ++
    toString s.budget.maxAttempts

def chosenSkill (s : RunState) : Option (String × ℕ) :=
  s.chosen.map fun c => (c.skillId, c.version)

/-- A verdict that does not touch trust. -/
def neutral (failureClass : FailureClass) (evidence : String) : FailureVerdict :=
  { failureClass, evidence := [evidence], countsAgainstTrust := false }

def executionVerdict (s : RunState) (signal : FailureSignal) : FailureVerdict :=
  { failureClass := .execution
    evidence := if failedIds s = [] then [signal.detail] else failedIds s
    implicatedSkill := chosenSkill s
    countsAgainstTrust := true }

/-- The first class of the taxonomy that fits, in the order of the source. -/
def verdictFor (ctx : NodeContext) (s : RunState) (signal : FailureSignal) : FailureVerdict :=
  if isBudgetFailure s signal then neutral .budget (budgetEvidence s signal)
  else match signal.source with
    | .join => neutral .merge signal.detail
    | .solver =>
      if isToolFailure ctx signal.detail then neutral .tool signal.detail
      else if Text.contains (Text.lower signal.detail) "claim timeout" then
        neutral .merge signal.detail
      else if isEnvironmentFailure signal.detail then neutral .environment signal.detail
      else neutral .tool signal.detail
    | source =>
      if hasInvalidSensitivityProof s then
        { failureClass := .criteria
          evidence := invalidProofEvidence s
          countsAgainstTrust := false
          escalateToHuman := true }
      else if s.chosen.isSome && s.results.isEmpty && source == .validator then
        { failureClass := .retrieval
          evidence := [signal.detail]
          implicatedSkill := chosenSkill s
          countsAgainstTrust := true }
      else executionVerdict s signal

def classifyFailure (ctx : NodeContext) (s : RunState) (t : Tree) : Except NodeError NodeOutcome :=
  match s.failureSignal with
  | none => .error (.valueError
      "classify_failure requires a FailureSignal on the run state (ADR-0008)")
  | some signal =>
    let failure := verdictFor ctx s signal
    if !failure.isConsistent then
      .error (.assertionError "classify_failure produced an inconsistent verdict")
    else
      let s' := { s with failure := some failure }
      match legalRoutes .classifyFailure s' with
      | [r] => .ok { state := s', route := some r.predicateName, workdir := t }
      | _ => .error (.assertionError "ambiguous routes out of classify_failure")

structure RepairMove where
  approach : String
  strategy : Option Strategy
  dropChosen : Bool := false

def strategyText (s : RunState) : String := (s.strategy.getD .scratch).text

def currentApproach (s : RunState) : String :=
  match s.chosen with
  | some c => "skill:" ++ c.skillId ++ "@v" ++ toString c.version
  | none => "strategy:" ++ strategyText s

def repairMove (failureClass : FailureClass) (s : RunState) : RepairMove :=
  match failureClass with
  | .retrieval => { approach := "scratch", strategy := some .scratch, dropChosen := true }
  | .plan =>
    let next : Strategy := if s.strategy = some .scratch then .adapt else .scratch
    { approach := next.text, strategy := some next, dropChosen := s.strategy == some .apply }
  -- Every other class keeps the strategy: the repair is the restore itself.
  | _ => { approach := currentApproach s, strategy := s.strategy }

/-- A retrieved dead end that still applies switches the approach to scratch. -/
def suppressRepeatedApproach (ctx : NodeContext) (move : RepairMove) : RepairMove :=
  if ctx.deadEndApplies move.approach then
    { approach := "scratch", strategy := some .scratch, dropChosen := true }
  else move

def applyMove (s : RunState) (move : RepairMove) : RunState :=
  { s with
    strategy := if move.strategy.isSome then move.strategy else s.strategy
    chosen := if move.dropChosen then none else s.chosen
    bundle := if move.dropChosen then
        { s.bundle with skills := s.bundle.skills.filter fun c => some c != s.chosen }
      else s.bundle }

def markRestored : List WorkspaceSnapshot → List WorkspaceSnapshot
  | [] => []
  | snapshot :: rest => { snapshot with restored := true } :: rest

abbrev SnapshotStore := List (String × Tree)

/-- `evolve` leaves `branches`, `results` and `merge_audits` as the failed attempt left them. -/
def evolve (ctx : NodeContext) (snapshots : SnapshotStore) (s : RunState) :
    Except NodeError NodeOutcome :=
  match s.workspaceSnapshots with
  | [] => .error (.valueError "evolve requires a clean workspace snapshot on the run state")
  | clean :: _ =>
    match snapshots.lookup clean.snapshotRef with
    | none => .error (.fileNotFoundError ("snapshot '" ++ clean.snapshotRef ++ "' not found"))
    | some tree =>
      let failureClass := (s.failure.map (·.failureClass)).getD .execution
      let move := suppressRepeatedApproach ctx (repairMove failureClass s)
      .ok {
        state := { applyMove s move with
          workspaceSnapshots := markRestored s.workspaceSnapshots
          failureSignal := none
          transcriptRef := none }
        route := some .always
        workdir := tree }

/-- The verdicts other than the criteria verdict are consistent; that one never is. -/
theorem verdictFor_isConsistent (ctx : NodeContext) (s : RunState) (signal : FailureSignal) :
    (verdictFor ctx s signal).isConsistent =
      !((verdictFor ctx s signal).failureClass == .criteria) := by
  unfold verdictFor neutral executionVerdict
  split
  · rfl
  · split
    · rfl
    · split
      · rfl
      · split
        · rfl
        · split <;> rfl
    · split
      · rfl
      · split <;> rfl

/-- The spec of `classify_failure`: the table has one route for the verdict, and it is taken. -/
theorem classifyFailure_spec {ctx : NodeContext} {s : RunState} {t : Tree} {o : NodeOutcome}
    (h : classifyFailure ctx s t = .ok o) :
    ∃ signal, s.failureSignal = some signal ∧
      o = { state := { s with failure := some (verdictFor ctx s signal) }
            route := some (if budgetRemainsWithProgress
              { s with failure := some (verdictFor ctx s signal) } then .retry else .otherwise)
            workdir := t } := by
  unfold classifyFailure at h
  split at h
  · cases h
  · rename_i signal hsignal
    refine ⟨signal, hsignal, ?_⟩
    dsimp only at h
    split at h
    · cases h
    · rw [legalRoutes_classifyFailure] at h
      by_cases hb : budgetRemainsWithProgress
          { s with failure := some (verdictFor ctx s signal) } = true
      · rw [if_pos hb] at h ⊢
        cases h
        rfl
      · rw [if_neg hb] at h ⊢
        cases h
        rfl

theorem legalRoutes_classifyFailure_unique (s : RunState) :
    ∃ r, legalRoutes .classifyFailure s = [r] := by
  rw [legalRoutes_classifyFailure]
  split
  · exact ⟨_, rfl⟩
  · exact ⟨_, rfl⟩

/-- The node raises exactly without a signal or with a criteria verdict. -/
theorem classifyFailure_isOk (ctx : NodeContext) (s : RunState) (t : Tree) :
    (∃ o, classifyFailure ctx s t = .ok o) ↔
      ∃ signal, s.failureSignal = some signal ∧
        (verdictFor ctx s signal).failureClass ≠ .criteria := by
  constructor
  · rintro ⟨o, h⟩
    unfold classifyFailure at h
    split at h
    · cases h
    · rename_i signal hsignal
      refine ⟨signal, hsignal, ?_⟩
      intro hc
      have hfalse : (verdictFor ctx s signal).isConsistent = false := by
        simp [verdictFor_isConsistent, hc]
      simp [hfalse] at h
  · rintro ⟨signal, hsignal, hc⟩
    have htrue : (verdictFor ctx s signal).isConsistent = true := by
      simp [verdictFor_isConsistent, hc]
    obtain ⟨r, hr⟩ := legalRoutes_classifyFailure_unique
      { s with failure := some (verdictFor ctx s signal) }
    refine ⟨{ state := { s with failure := some (verdictFor ctx s signal) }
              route := some r.predicateName
              workdir := t }, ?_⟩
    unfold classifyFailure
    simp only [hsignal, htrue, Bool.not_true, Bool.false_eq_true, if_false]
    rw [hsignal] at hr
    simp only [hr]

/-- The spec of `evolve`: everything but the move, the signal and the transcript is kept, and the
workdir is the first snapshot again. -/
theorem evolve_spec {ctx : NodeContext} {snapshots : SnapshotStore} {s : RunState}
    {o : NodeOutcome} (h : evolve ctx snapshots s = .ok o) :
    ∃ clean rest tree move, s.workspaceSnapshots = clean :: rest ∧
      snapshots.lookup clean.snapshotRef = some tree ∧
      o = { state := { applyMove s move with
              workspaceSnapshots := { clean with restored := true } :: rest
              failureSignal := none
              transcriptRef := none }
            route := some .always
            workdir := tree } := by
  unfold evolve at h
  split at h
  · cases h
  · rename_i clean rest hsnap
    split at h
    · cases h
    · rename_i tree htree
      cases h
      exact ⟨clean, rest, tree, _, hsnap, htree, by rw [hsnap]; rfl⟩

end Recertia.Graph
