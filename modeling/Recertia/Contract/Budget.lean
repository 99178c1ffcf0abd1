import Mathlib.Algebra.Order.Field.Rat
import Mathlib.Tactic.Common

/-! Budgets, spend and reservations. Wall clock and cost are rationals. -/
namespace Recertia.Graph

/-- The fields of a `Budget` before validation. -/
structure BudgetFields where
  maxAttempts : ℕ := 4
  maxToolCalls : ℕ := 200
  maxTokens : Option ℕ := none
  maxWallClockS : ℕ := 900
  maxCostUsd : Option ℚ := none
  maxBranches : ℕ := 3
  maxParallelSteps : ℕ := 8
  claimTimeoutS : ℕ := 60
  maxVersionsWritten : ℕ := 2
  deriving DecidableEq

/-- The field bounds that pydantic checks. -/
structure BudgetFields.Valid (b : BudgetFields) : Prop where
  attempts : 1 ≤ b.maxAttempts
  toolCalls : 1 ≤ b.maxToolCalls
  tokens : ∀ n ∈ b.maxTokens, 1 ≤ n
  wallClock : 1 ≤ b.maxWallClockS
  cost : ∀ q ∈ b.maxCostUsd, 0 ≤ q
  branches : 1 ≤ b.maxBranches ∧ b.maxBranches ≤ 16
  parallelSteps : 1 ≤ b.maxParallelSteps
  claimTimeout : 1 ≤ b.claimTimeoutS

theorem BudgetFields.valid_iff (b : BudgetFields) :
    b.Valid ↔ 1 ≤ b.maxAttempts ∧ 1 ≤ b.maxToolCalls ∧ (∀ n ∈ b.maxTokens, 1 ≤ n) ∧
      1 ≤ b.maxWallClockS ∧ (∀ q ∈ b.maxCostUsd, 0 ≤ q) ∧
      (1 ≤ b.maxBranches ∧ b.maxBranches ≤ 16) ∧ 1 ≤ b.maxParallelSteps ∧ 1 ≤ b.claimTimeoutS :=
  ⟨fun h => ⟨h.1, h.2, h.3, h.4, h.5, h.6, h.7, h.8⟩,
    fun ⟨h1, h2, h3, h4, h5, h6, h7, h8⟩ => ⟨h1, h2, h3, h4, h5, h6, h7, h8⟩⟩

instance (b : BudgetFields) : Decidable b.Valid := decidable_of_iff' _ b.valid_iff

structure Budget extends BudgetFields where
  valid : toBudgetFields.Valid

instance : Inhabited Budget := ⟨{ valid := by decide }⟩

structure Spend where
  attempts : ℕ := 0
  toolCalls : ℕ := 0
  tokens : ℕ := 0
  wallClockS : ℚ := 0
  costUsd : ℚ := 0
  versionsWritten : ℕ := 0
  deriving DecidableEq

structure BudgetReservation where
  attempts : ℕ := 0
  toolCalls : ℕ := 0
  tokens : ℕ := 0
  wallClockS : ℚ := 0
  costUsd : ℚ := 0
  versionsWritten : ℕ := 0
  deriving DecidableEq

inductive Dimension
  | attempts | toolCalls | tokens | wallClockS | costUsd | versionsWritten
  deriving DecidableEq, Repr

def Dimension.text : Dimension → String
  | .attempts => "attempts"
  | .toolCalls => "tool_calls"
  | .tokens => "tokens"
  | .wallClockS => "wall_clock_s"
  | .costUsd => "cost_usd"
  | .versionsWritten => "versions_written"

/-- Whether the total of a dimension exceeds its limit. -/
def exceeds (b : BudgetFields) (s : Spend) (r q : BudgetReservation) : Dimension → Bool
  | .attempts => b.maxAttempts < s.attempts + r.attempts + q.attempts
  | .toolCalls => b.maxToolCalls < s.toolCalls + r.toolCalls + q.toolCalls
  | .tokens => b.maxTokens.any fun n => n < s.tokens + r.tokens + q.tokens
  | .wallClockS => (b.maxWallClockS : ℚ) < s.wallClockS + r.wallClockS + q.wallClockS
  | .costUsd => b.maxCostUsd.any fun m => m < s.costUsd + r.costUsd + q.costUsd
  | .versionsWritten => b.maxVersionsWritten < s.versionsWritten + r.versionsWritten + q.versionsWritten

/-- The first exhausted dimension, counting committed and reserved resources. -/
def budgetExcess (b : BudgetFields) (spent : Spend) (reservation requested : BudgetReservation) :
    Option Dimension :=
  [.attempts, .toolCalls, .tokens, .wallClockS, .costUsd, .versionsWritten].find?
    (exceeds b spent reservation requested)

theorem budgetExcess_none {b : BudgetFields} {s : Spend} {r q : BudgetReservation}
    (h : budgetExcess b s r q = none) (d : Dimension) : exceeds b s r q d = false := by
  have hd : d ∈ [Dimension.attempts, .toolCalls, .tokens, .wallClockS, .costUsd,
      .versionsWritten] := by cases d <;> decide
  simpa using List.find?_eq_none.mp h d hd

theorem attempts_le_of_budgetExcess {b : BudgetFields} {s : Spend} {r q : BudgetReservation}
    (h : budgetExcess b s r q = none) :
    s.attempts + r.attempts + q.attempts ≤ b.maxAttempts := by
  have ha : exceeds b s r q .attempts = false := budgetExcess_none h .attempts
  simpa [exceeds] using ha

theorem toolCalls_le_of_budgetExcess {b : BudgetFields} {s : Spend} {r q : BudgetReservation}
    (h : budgetExcess b s r q = none) :
    s.toolCalls + r.toolCalls + q.toolCalls ≤ b.maxToolCalls := by
  have ht : exceeds b s r q .toolCalls = false := budgetExcess_none h .toolCalls
  simpa [exceeds] using ht

end Recertia.Graph
