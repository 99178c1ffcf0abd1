import Recertia.Mea.Runtime

/-! The manager of a multi-round run: from what remains of the budget it proposes a bounded
subtask, or it stops early. -/
namespace Recertia.Mea

open Graph (BudgetFields Budget TaskCriterion)

inductive ScopeNetwork
  | none | allowlist | open
  deriving DecidableEq, Repr

structure ScopeDescriptor where
  files : List String := []
  commands : List String := []
  network : ScopeNetwork := .none
  permissions : List String := []
  notes : Option String := .none
  deriving DecidableEq

/-- The state with its scope and with the bounds that its contract checks. -/
structure ManagedState extends AuditedTaskState where
  scope : ScopeDescriptor := {}
  hasCriteria : acceptanceCriteria ≠ []
  branchCap : budgetResidual.maxBranches ≤ 16
  costNonneg : ∀ q ∈ budgetResidual.maxCostUsd, 0 ≤ q

structure SubtaskContract where
  subtaskId : String
  parentStateVersion : ℕ
  description : String
  acceptanceCriteria : List TaskCriterion
  scope : ScopeDescriptor
  budget : Budget
  maxSteps : Int
  dependencies : List String := []
  allowedActions : List String := []
  hasCriteria : acceptanceCriteria ≠ []
  someStep : 1 ≤ maxSteps

inductive SubtaskError
  | budgetExhausted | validation
  deriving DecidableEq, Repr

/-- The fields that a residual budget hands to an admission budget. -/
def admissionFields (r : ResidualBudget) : BudgetFields where
  maxAttempts := r.maxAttempts
  maxToolCalls := max 1 r.maxToolCalls
  maxTokens := r.maxTokens.map fun tokens => if tokens < 1 then 1 else tokens
  maxWallClockS := max 1 r.maxWallClockS
  maxCostUsd := r.maxCostUsd
  maxBranches := max 1 r.maxBranches
  maxParallelSteps := max 1 r.maxParallelSteps
  claimTimeoutS := max 1 r.claimTimeoutS
  maxVersionsWritten := r.maxVersionsWritten

def asAdmissionBudget (r : ResidualBudget) : Except SubtaskError Budget :=
  if r.maxAttempts < 1 then .error .budgetExhausted
  else if h : (admissionFields r).Valid then .ok { toBudgetFields := admissionFields r, valid := h }
  else .error .validation

/-- The share of one round in what remains, one at least. -/
def roundSlice (remaining rounds : ℕ) : ℕ := max 1 (min remaining (max 1 (remaining / rounds)))

/-- The residual with the attempts and the tool calls of one round. -/
def slicedResidual (state : AuditedTaskState) : ResidualBudget :=
  let residual := state.budgetResidual
  let remainingRounds := max 1 (state.maxRounds - state.roundsConsumed)
  let toolSlice :=
    if 0 < residual.maxToolCalls then roundSlice residual.maxToolCalls remainingRounds
    else residual.maxToolCalls
  { residual with
    maxAttempts := roundSlice residual.maxAttempts remainingRounds
    maxToolCalls := max 1 toolSlice }

/-- `acceptance_criteria or list(state.acceptance_criteria)` -/
def subtaskCriteria (acceptanceCriteria : Option (List TaskCriterion))
    (locked : List TaskCriterion) : List TaskCriterion :=
  match acceptanceCriteria with
  | some (c :: cs) => c :: cs
  | _ => locked

/-- The contract as its constructor validates it. -/
def subtaskContract (state : ManagedState) (subtaskId description : String)
    (criteria : List TaskCriterion) (scope : ScopeDescriptor) (budget : Budget)
    (maxSteps : Int) : Except SubtaskError SubtaskContract :=
  if h : criteria ≠ [] ∧ 1 ≤ maxSteps then
    .ok {
      subtaskId := subtaskId, parentStateVersion := state.version, description := description
      acceptanceCriteria := criteria, scope := scope, budget := budget, maxSteps := maxSteps
      hasCriteria := h.1, someStep := h.2 }
  else .error .validation

/-- A bounded subtask from the residual budget, or an early stop. -/
def proposeSubtask (state : ManagedState) (subtaskId description : String)
    (acceptanceCriteria : Option (List TaskCriterion)) (scope : Option ScopeDescriptor)
    (maxSteps : Int) : Except SubtaskError (Option SubtaskContract × Option MeaEarlyStop) :=
  match enforceRoundBudget state.toAuditedTaskState with
  | some stop => .ok (none, some stop)
  | none => do
    let criteria := subtaskCriteria acceptanceCriteria state.acceptanceCriteria
    let subBudget ← asAdmissionBudget (slicedResidual state.toAuditedTaskState)
    let contract ← subtaskContract state subtaskId description criteria
      (scope.getD state.scope) subBudget maxSteps
    pure (some contract, none)

/-! ### What a budget takes of another -/

/-- At most `r` in every dimension. A cap of `none` is no cap. -/
structure Within (b r : BudgetFields) : Prop where
  attempts : b.maxAttempts ≤ r.maxAttempts
  toolCalls : b.maxToolCalls ≤ r.maxToolCalls
  tokens : ∀ n ∈ r.maxTokens, ∃ m ∈ b.maxTokens, m ≤ n
  wallClock : b.maxWallClockS ≤ r.maxWallClockS
  cost : ∀ q ∈ r.maxCostUsd, ∃ p ∈ b.maxCostUsd, p ≤ q
  branches : b.maxBranches ≤ r.maxBranches
  parallelSteps : b.maxParallelSteps ≤ r.maxParallelSteps
  claimTimeout : b.claimTimeoutS ≤ r.claimTimeoutS
  versions : b.maxVersionsWritten ≤ r.maxVersionsWritten

/-- A residual budget is an admission budget as it is when nothing in it is exhausted. -/
theorem admissionFields_of_valid {r : ResidualBudget} (h : r.Valid) : admissionFields r = r := by
  have htokens : (r.maxTokens.map fun tokens => if tokens < 1 then 1 else tokens) =
      r.maxTokens := by
    cases ht : r.maxTokens with
    | none => rfl
    | some n =>
      have hn : 1 ≤ n := h.tokens n ht
      simp only [Option.map_some, if_neg (Nat.not_lt.mpr hn)]
  simp only [admissionFields, htokens, max_eq_right h.toolCalls, max_eq_right h.wallClock,
    max_eq_right h.branches.1, max_eq_right h.parallelSteps, max_eq_right h.claimTimeout]

/-- What is within a budget of floors is within the residual only if nothing is exhausted
there. -/
theorem Within.valid_residual {b r : BudgetFields} (hb : b.Valid) (h : Within b r)
    (hbranches : r.maxBranches ≤ 16) (hcost : ∀ q ∈ r.maxCostUsd, 0 ≤ q) : r.Valid where
  attempts := hb.attempts.trans h.attempts
  toolCalls := hb.toolCalls.trans h.toolCalls
  tokens := by
    intro n hn
    obtain ⟨m, hm, hmn⟩ := h.tokens n hn
    exact (hb.tokens m hm).trans hmn
  wallClock := hb.wallClock.trans h.wallClock
  cost := hcost
  branches := ⟨hb.branches.1.trans h.branches, hbranches⟩
  parallelSteps := hb.parallelSteps.trans h.parallelSteps
  claimTimeout := hb.claimTimeout.trans h.claimTimeout

/-! ### The subtask of a round -/

theorem roundSlice_le {remaining : ℕ} (h : 1 ≤ remaining) (rounds : ℕ) :
    roundSlice remaining rounds ≤ remaining := by
  unfold roundSlice
  omega

theorem one_le_roundSlice (remaining rounds : ℕ) : 1 ≤ roundSlice remaining rounds :=
  le_max_left _ _

theorem slicedResidual_maxToolCalls_le (state : AuditedTaskState) :
    (slicedResidual state).maxToolCalls ≤ max 1 state.budgetResidual.maxToolCalls := by
  simp only [slicedResidual]
  split
  · rename_i hpos
    exact max_le_max le_rfl (roundSlice_le hpos _)
  · exact le_rfl

theorem admissionFields_valid {r : ResidualBudget} (hattempts : 1 ≤ r.maxAttempts)
    (hbranches : r.maxBranches ≤ 16) (hcost : ∀ q ∈ r.maxCostUsd, 0 ≤ q) :
    (admissionFields r).Valid where
  attempts := hattempts
  toolCalls := le_max_left _ _
  tokens := by
    intro n hn
    obtain ⟨tokens, -, rfl⟩ := Option.mem_map.mp hn
    split <;> omega
  wallClock := le_max_left _ _
  cost := hcost
  branches := ⟨le_max_left _ _, max_le (by decide) hbranches⟩
  parallelSteps := le_max_left _ _
  claimTimeout := le_max_left _ _

/-- The admission budget of the slice takes no more than the residual does with its zeros raised
to one. -/
theorem admissionFields_slicedResidual_within {state : AuditedTaskState}
    (h : 1 ≤ state.budgetResidual.maxAttempts) :
    Within (admissionFields (slicedResidual state)) (admissionFields state.budgetResidual) where
  attempts := roundSlice_le h _
  toolCalls := max_le (le_max_left _ _) (slicedResidual_maxToolCalls_le state)
  tokens := fun n hn => ⟨n, hn, le_rfl⟩
  wallClock := le_rfl
  cost := fun q hq => ⟨q, hq, le_rfl⟩
  branches := le_rfl
  parallelSteps := le_rfl
  claimTimeout := le_rfl
  versions := le_rfl

theorem enforceRoundBudget_eq_none {state : AuditedTaskState}
    (h : enforceRoundBudget state = none) : 1 ≤ state.budgetResidual.maxAttempts := by
  unfold enforceRoundBudget at h
  split at h
  · cases h
  · split at h
    · cases h
    · omega

theorem subtaskCriteria_ne_nil (acceptanceCriteria : Option (List TaskCriterion))
    {locked : List TaskCriterion} (h : locked ≠ []) :
    subtaskCriteria acceptanceCriteria locked ≠ [] := by
  unfold subtaskCriteria
  split
  · exact List.cons_ne_nil _ _
  · exact h

theorem asAdmissionBudget_eq_ok {r : ResidualBudget} (hattempts : 1 ≤ r.maxAttempts)
    (hbranches : r.maxBranches ≤ 16) (hcost : ∀ q ∈ r.maxCostUsd, 0 ≤ q) :
    ∃ budget, asAdmissionBudget r = .ok budget ∧ budget.toBudgetFields = admissionFields r := by
  have hvalid : (admissionFields r).Valid := admissionFields_valid hattempts hbranches hcost
  refine ⟨{ toBudgetFields := admissionFields r, valid := hvalid }, ?_, rfl⟩
  rw [asAdmissionBudget, if_neg (Nat.not_lt.mpr hattempts), dif_pos hvalid]

/-- A round that is not stopped gets the admission budget of its slice, unless it may take no
step at all. -/
theorem proposeSubtask_of_no_stop {state : ManagedState} (subtaskId description : String)
    (acceptanceCriteria : Option (List TaskCriterion)) (scope : Option ScopeDescriptor)
    (maxSteps : Int) (h : enforceRoundBudget state.toAuditedTaskState = none) :
    (maxSteps < 1 ∧ proposeSubtask state subtaskId description acceptanceCriteria scope maxSteps =
        .error .validation) ∨
      ∃ contract, proposeSubtask state subtaskId description acceptanceCriteria scope maxSteps =
          .ok (some contract, none) ∧
        contract.budget.toBudgetFields =
          admissionFields (slicedResidual state.toAuditedTaskState) := by
  obtain ⟨budget, hbudget, hfields⟩ := asAdmissionBudget_eq_ok
    (r := slicedResidual state.toAuditedTaskState) (one_le_roundSlice _ _) state.branchCap
    state.costNonneg
  have hcriteria : subtaskCriteria acceptanceCriteria state.acceptanceCriteria ≠ [] :=
    subtaskCriteria_ne_nil _ state.hasCriteria
  have hpropose : proposeSubtask state subtaskId description acceptanceCriteria scope maxSteps =
      subtaskContract state subtaskId description
        (subtaskCriteria acceptanceCriteria state.acceptanceCriteria) (scope.getD state.scope)
        budget maxSteps >>= fun contract => pure (some contract, none) := by
    simp only [proposeSubtask, h, hbudget]
    rfl
  rw [hpropose, subtaskContract]
  by_cases hsteps : 1 ≤ maxSteps
  · rw [dif_pos ⟨hcriteria, hsteps⟩]
    exact .inr ⟨_, rfl, hfields⟩
  · rw [dif_neg fun hc => hsteps hc.2]
    exact .inl ⟨by omega, rfl⟩

/-- A proposal stops early, is refused for want of a step, or has a budget within the residual one
with its zeros raised to one: within the residual itself exactly when that is an admission
budget. -/
theorem proposeSubtask_within (state : ManagedState) (subtaskId description : String)
    (acceptanceCriteria : Option (List TaskCriterion)) (scope : Option ScopeDescriptor)
    (maxSteps : Int) :
    (∃ stop, proposeSubtask state subtaskId description acceptanceCriteria scope maxSteps =
        .ok (none, some stop)) ∨
      (maxSteps < 1 ∧ proposeSubtask state subtaskId description acceptanceCriteria scope maxSteps =
        .error .validation) ∨
      ∃ contract, proposeSubtask state subtaskId description acceptanceCriteria scope maxSteps =
          .ok (some contract, none) ∧
        Within contract.budget.toBudgetFields (admissionFields state.budgetResidual) ∧
        (Within contract.budget.toBudgetFields state.budgetResidual ↔
          state.budgetResidual.Valid) := by
  cases h : enforceRoundBudget state.toAuditedTaskState with
  | some stop =>
    left
    refine ⟨stop, ?_⟩
    simp only [proposeSubtask, h]
  | none =>
    right
    have hattempts : 1 ≤ state.budgetResidual.maxAttempts := enforceRoundBudget_eq_none h
    obtain hrefused | ⟨contract, hpropose, hbudget⟩ := proposeSubtask_of_no_stop subtaskId
      description acceptanceCriteria scope maxSteps h
    · exact .inl hrefused
    · right
      have hfloors : Within contract.budget.toBudgetFields
          (admissionFields state.budgetResidual) := by
        rw [hbudget]
        exact admissionFields_slicedResidual_within hattempts
      refine ⟨contract, hpropose, hfloors, ?_, ?_⟩
      · intro hwithin
        exact hwithin.valid_residual contract.budget.valid state.branchCap state.costNonneg
      · intro hvalid
        rwa [admissionFields_of_valid hvalid] at hfloors

def spentTools : ManagedState where
  stateId := "s"
  goalId := "g"
  version := 0
  objective := "fix the parser"
  acceptanceCriteria := [{ id := "c", check := .judge "r" }]
  criteriaSnapshotHash := "h"
  budgetResidual := { maxToolCalls := 0 }
  provenance := { source := .meaLoop }
  updatedAt := 0
  roundsWithinCap := by decide
  hasCriteria := List.cons_ne_nil _ _
  branchCap := by decide
  costNonneg := by decide

/-- With no tool call left a subtask is admitted with one. -/
theorem spentTools_not_within :
    ∃ contract, proposeSubtask spentTools "t" "d" none none 50 = .ok (some contract, none) ∧
      contract.budget.maxToolCalls = 1 ∧
      ¬ Within contract.budget.toBudgetFields spentTools.budgetResidual :=
  ⟨_, rfl, rfl, fun h => absurd h.toolCalls (by decide)⟩

end Recertia.Mea
