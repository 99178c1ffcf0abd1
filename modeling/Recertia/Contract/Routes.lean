import Recertia.Contract.RunState

/-! The route table as data, and the routes that are legal in a state. -/
namespace Recertia.Graph

structure Route where
  source : Node
  target : Node
  predicateName : RouteName
  predicate : RunState → Bool

def requiredCriteriaPass (s : RunState) : Bool :=
  (s.criteria.filter TaskCriterion.isRequired).all fun c =>
    s.results.any fun r => r.passed && r.criterionId == c.id

def hasBranches (s : RunState) : Bool := !s.branches.isEmpty

def joinCompleteAndPassing (s : RunState) : Bool :=
  !s.mergeAudits.isEmpty && s.mergeAudits.all MergeAudit.isComplete && requiredCriteriaPass s

def failureSignalPresent (s : RunState) : Bool := s.failureSignal.isSome

/-- The last two result vectors are there and equal. -/
def identicalResults (s : RunState) : Bool :=
  match s.resultsHistory.reverse with
  | last :: previous :: _ => last == previous
  | _ => false

def budgetRemainsWithProgress (s : RunState) : Bool :=
  match s.failure with
  | none => false
  | some failure =>
    failure.failureClass != .criteria && failure.failureClass != .budget &&
      decide (s.spent.attempts < s.budget.maxAttempts) && !identicalResults s

def routes : List Route := [
  ⟨.intake, .retrieve, .always, fun _ => true⟩,
  ⟨.retrieve, .plan, .always, fun _ => true⟩,
  ⟨.plan, .finalize, .abstain, fun s => s.strategy == some .abstain⟩,
  ⟨.plan, .fanOut, .fanOutStrategy,
    fun s => s.strategy == some .portfolio || s.strategy == some .decomposition⟩,
  ⟨.plan, .solve, .singleStrategy, fun s =>
    s.strategy == some .apply || s.strategy == some .adapt || s.strategy == some .scratch⟩,
  ⟨.fanOut, .classifyFailure, .preDispatchBudgetFailure, failureSignalPresent⟩,
  ⟨.fanOut, .solve, .always, fun s => !failureSignalPresent s⟩,
  ⟨.solve, .classifyFailure, .preValidationFailureSignal, failureSignalPresent⟩,
  ⟨.solve, .validate, .attemptCompleted,
    fun s => s.transcriptRef.isSome && !failureSignalPresent s⟩,
  ⟨.validate, .join, .hasBranches, hasBranches⟩,
  ⟨.validate, .distill, .noBranchesAndPassing,
    fun s => !hasBranches s && requiredCriteriaPass s && !failureSignalPresent s⟩,
  ⟨.validate, .classifyFailure, .noBranchesAndFailing,
    fun s => !hasBranches s && (!requiredCriteriaPass s || failureSignalPresent s)⟩,
  ⟨.join, .distill, .mergeCompleteAndPassing, joinCompleteAndPassing⟩,
  ⟨.join, .classifyFailure, .otherwise, fun s => !joinCompleteAndPassing s⟩,
  ⟨.classifyFailure, .evolve, .retry, budgetRemainsWithProgress⟩,
  ⟨.classifyFailure, .recordDeadEnd, .otherwise, fun s => !budgetRemainsWithProgress s⟩,
  ⟨.evolve, .solve, .always, fun _ => true⟩,
  ⟨.distill, .review, .reusable, fun s => s.reusability.any (·.verdict == .reusable)⟩,
  ⟨.distill, .finalize, .oneOff, fun s => s.reusability.any (·.verdict == .oneOff)⟩,
  ⟨.review, .store, .approved, fun _ => true⟩,
  ⟨.review, .rejectDraft, .rejected, fun _ => true⟩,
  ⟨.store, .finalize, .always, fun _ => true⟩,
  ⟨.recordDeadEnd, .finalize, .always, fun _ => true⟩,
  ⟨.rejectDraft, .finalize, .always, fun _ => true⟩]

def routesFrom (node : Node) : List Route := routes.filter fun r => r.source == node

/-- Every route out of `node` whose predicate holds for `s`. -/
def legalRoutes (node : Node) (s : RunState) : List Route :=
  (routesFrom node).filter fun r => r.predicate s

theorem mem_legalRoutes {node : Node} {s : RunState} {r : Route} :
    r ∈ legalRoutes node s ↔ r ∈ routes ∧ r.source = node ∧ r.predicate s = true := by
  simp only [legalRoutes, routesFrom, List.mem_filter, beq_iff_eq, and_assoc]

theorem routesFrom_classifyFailure : routesFrom .classifyFailure =
    [⟨.classifyFailure, .evolve, .retry, budgetRemainsWithProgress⟩,
      ⟨.classifyFailure, .recordDeadEnd, .otherwise, fun s => !budgetRemainsWithProgress s⟩] := rfl

/-- The two routes out of `classify_failure` exclude each other. -/
theorem legalRoutes_classifyFailure (s : RunState) :
    legalRoutes .classifyFailure s =
      if budgetRemainsWithProgress s then
        [⟨.classifyFailure, .evolve, .retry, budgetRemainsWithProgress⟩]
      else [⟨.classifyFailure, .recordDeadEnd, .otherwise,
        fun s => !budgetRemainsWithProgress s⟩] := by
  rw [legalRoutes, routesFrom_classifyFailure]
  by_cases h : budgetRemainsWithProgress s <;> simp [h]

end Recertia.Graph
