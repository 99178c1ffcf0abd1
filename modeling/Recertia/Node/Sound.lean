import Recertia.Node.Join
import Recertia.Node.Repair
import Recertia.Node.SolveSpec
import Recertia.Node.Terminal
import Recertia.Node.Validate

/-! What nodes ask of their inputs: a path, a token budget, a verdict, a signal. -/
namespace Recertia.Graph

open FileTree (Path Tree)

/-- The token budget has a share for every branch that `fan_out` makes. -/
def FanOutSound (s : RunState) : Prop :=
  s.strategy = some .portfolio ∨ s.strategy = some .decomposition →
    ∀ tokens ∈ s.budget.maxTokens, branchCount s ≤ tokens

/-- `classify_failure` gives a criteria verdict exactly to a validator's signal with an invalid
sensitivity proof. -/
def ClassifySound (s : RunState) : Prop :=
  ∀ signal, s.failureSignal = some signal → isBudgetFailure s signal = true ∨
    signal.source = .join ∨ signal.source = .solver ∨ hasInvalidSensitivityProof s = false

theorem verdictFor_criteria_iff (ctx : NodeContext) (s : RunState) (signal : FailureSignal) :
    (verdictFor ctx s signal).failureClass ≠ .criteria ↔ isBudgetFailure s signal = true ∨
      signal.source = .join ∨ signal.source = .solver ∨ hasInvalidSensitivityProof s = false := by
  unfold verdictFor
  by_cases hbudget : isBudgetFailure s signal = true
  · rw [if_pos hbudget]
    simp [neutral, hbudget]
  rw [if_neg hbudget]
  cases hsource : signal.source with
  | join => simp [neutral]
  | solver =>
    dsimp only
    refine ⟨fun _ => Or.inr (Or.inr (Or.inl rfl)), fun _ => ?_⟩
    split
    · simp [neutral]
    · split
      · simp [neutral]
      · split <;> simp [neutral]
  | orchestrator =>
    dsimp only
    by_cases hproof : hasInvalidSensitivityProof s = true
    · simp [hbudget, hproof]
    · rw [if_neg hproof]
      refine ⟨fun _ => by simp [hproof], fun _ => ?_⟩
      split <;> simp [executionVerdict]
  | validator =>
    dsimp only
    by_cases hproof : hasInvalidSensitivityProof s = true
    · simp [hbudget, hproof]
    · rw [if_neg hproof]
      refine ⟨fun _ => by simp [hproof], fun _ => ?_⟩
      split <;> simp [executionVerdict]

end Recertia.Graph
