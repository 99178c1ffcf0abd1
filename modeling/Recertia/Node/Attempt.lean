import Recertia.Node.Context

/-! Attempt-scoped spend accounting: `spent` has one writer for the attempt dimensions. -/
namespace Recertia.Graph

open FileTree (Tree)

/-- What one attempt has consumed so far, over the spend that is committed. -/
structure AttemptMeter where
  budget : Budget
  committed : Spend
  reserved : BudgetReservation := {}
  toolCalls : ℕ := 0
  tokens : ℕ := 0
  costUsd : ℚ := 0

namespace AttemptMeter

def opened (s : RunState) : AttemptMeter :=
  { budget := s.budget, committed := s.spent, reserved := s.reserved }

/-- A path that retires its own reservation into spend is not charged for holding it. -/
def openedRetiring (s : RunState) : AttemptMeter :=
  { budget := s.budget, committed := s.spent }

def charge (m : AttemptMeter) (toolCalls tokens : ℕ) (costUsd : ℚ) : AttemptMeter :=
  { m with
    toolCalls := m.toolCalls + toolCalls
    tokens := m.tokens + tokens
    costUsd := m.costUsd + costUsd }

def used (m : AttemptMeter) (elapsedS : ℚ) (attempts toolCalls : ℕ) : BudgetReservation :=
  { attempts
    toolCalls := m.toolCalls + toolCalls
    tokens := m.tokens
    costUsd := m.costUsd
    wallClockS := max 0 elapsedS }

/-- The first exhausted dimension, or nothing when the work fits. -/
def preflight (m : AttemptMeter) (elapsedS : ℚ) (attempts toolCalls : ℕ) : Option Dimension :=
  budgetExcess m.budget.toBudgetFields m.committed m.reserved (m.used elapsedS attempts toolCalls)

def commit (m : AttemptMeter) (elapsedS : ℚ) (attempts : ℕ) : Spend :=
  { m.committed with
    attempts := m.committed.attempts + attempts
    toolCalls := m.committed.toolCalls + m.toolCalls
    tokens := m.committed.tokens + m.tokens
    wallClockS := m.committed.wallClockS + max 0 elapsedS
    costUsd := m.committed.costUsd + m.costUsd }

@[simp] theorem charge_budget (m : AttemptMeter) (n k : ℕ) (q : ℚ) :
    (m.charge n k q).budget = m.budget := rfl

@[simp] theorem charge_committed (m : AttemptMeter) (n k : ℕ) (q : ℚ) :
    (m.charge n k q).committed = m.committed := rfl

@[simp] theorem charge_reserved (m : AttemptMeter) (n k : ℕ) (q : ℚ) :
    (m.charge n k q).reserved = m.reserved := rfl

@[simp] theorem charge_toolCalls (m : AttemptMeter) (n k : ℕ) (q : ℚ) :
    (m.charge n k q).toolCalls = m.toolCalls + n := rfl

@[simp] theorem commit_attempts (m : AttemptMeter) (e : ℚ) (n : ℕ) :
    (m.commit e n).attempts = m.committed.attempts + n := rfl

@[simp] theorem commit_toolCalls (m : AttemptMeter) (e : ℚ) (n : ℕ) :
    (m.commit e n).toolCalls = m.committed.toolCalls + m.toolCalls := rfl

@[simp] theorem commit_versionsWritten (m : AttemptMeter) (e : ℚ) (n : ℕ) :
    (m.commit e n).versionsWritten = m.committed.versionsWritten := rfl

/-- A preflight for one call that fits leaves room for that call. -/
theorem toolCalls_of_preflight {m : AttemptMeter} {e : ℚ} {a n : ℕ}
    (h : m.preflight e a n = none) :
    m.committed.toolCalls + m.reserved.toolCalls + (m.toolCalls + n) ≤ m.budget.maxToolCalls :=
  toolCalls_le_of_budgetExcess h

end AttemptMeter

/-- Sole writer of `spent.versions_written`. -/
def chargeVersionWrite (s : RunState) : RunState :=
  { s with spent := { s.spent with versionsWritten := s.spent.versionsWritten + 1 } }

/-- Closes a failed attempt: charges it, records the signal, hands routing to the graph. -/
def failed (s : RunState) (m : AttemptMeter) (elapsedS : ℚ) (attemptNo attempts : ℕ)
    (signal : FailureSignal) (workdir : Tree) : NodeOutcome :=
  { state := { s with
      attemptNo
      spent := m.commit elapsedS attempts
      failureSignal := some signal }
    route := some .preValidationFailureSignal
    workdir }

/-- Closes a completed attempt and leaves judging to `validate`. -/
def completed (s : RunState) (m : AttemptMeter) (elapsedS : ℚ) (attemptNo attempts : ℕ)
    (transcriptRef : String) (workdir : Tree) : NodeOutcome :=
  { state := { s with
      attemptNo
      spent := m.commit elapsedS attempts
      transcriptRef := some transcriptRef
      failureSignal := none }
    route := some .attemptCompleted
    workdir }

end Recertia.Graph
