import Mathlib.Algebra.Order.Field.Basic
import Recertia.Node.Intake

/-! `fan_out`: split the budget and materialise portfolio or decomposition branches. -/
namespace Recertia.Graph

open FileTree (Tree)

/-- `ctx.script or ["true"]` -/
def scriptOrTrue (ctx : NodeContext) : List String :=
  match ctx.script with
  | none => ["true"]
  | some [] => ["true"]
  | some script => script

def desiredBranches (s : RunState) : ℕ :=
  if s.strategy = some .portfolio then s.bundle.skills.length
  else min s.criteria.length s.budget.maxBranches

def branchCount (s : RunState) : ℕ := min s.budget.maxBranches (max 2 (desiredBranches s))

/-- Every finite dimension is divided before dispatch. -/
def childBudget (parent : Budget) (n : ℕ) : BudgetFields :=
  { maxAttempts := max 1 (parent.maxAttempts / n)
    maxTokens := parent.maxTokens.map (· / n)
    maxCostUsd := parent.maxCostUsd.map (· / n)
    maxWallClockS := max 1 (parent.maxWallClockS / n)
    maxToolCalls := max 1 (parent.maxToolCalls / n)
    maxBranches := 1
    maxParallelSteps := parent.maxParallelSteps
    claimTimeoutS := parent.claimTimeoutS
    maxVersionsWritten := parent.maxVersionsWritten }

/-- What running `commands` commands in a branch costs. -/
def branchCost (commands : ℕ) : ℚ := (1 / 100) * (1 + commands)

def requestedPerBranch (ctx : NodeContext) (child : BudgetFields) : BudgetReservation :=
  { attempts := 1
    toolCalls := (scriptOrTrue ctx).length
    tokens := child.maxTokens.getD 0
    wallClockS := min 60 child.maxWallClockS
    costUsd := branchCost (scriptOrTrue ctx).length }

def BudgetReservation.scale (n : ℕ) (r : BudgetReservation) : BudgetReservation :=
  { attempts := r.attempts * n
    toolCalls := r.toolCalls * n
    tokens := r.tokens * n
    wallClockS := r.wallClockS * n
    costUsd := r.costUsd * n }

def BudgetReservation.plus (r q : BudgetReservation) : BudgetReservation :=
  { attempts := r.attempts + q.attempts
    toolCalls := r.toolCalls + q.toolCalls
    tokens := r.tokens + q.tokens
    wallClockS := r.wallClockS + q.wallClockS
    costUsd := r.costUsd + q.costUsd }

/-- Competing strategies: the top skills and scratch. -/
def portfolioBranches (s : RunState) (n : ℕ) (child : Budget) (reserved : BudgetReservation) :
    List BranchState :=
  let candidates := (s.bundle.skills.take (n - 1)).map some ++ [none]
  candidates.zipIdx.map fun (candidate, i) =>
    let branchId := s.runId ++ "-p" ++ toString i
    { branchId
      kind := .portfolio
      strategy := if candidate.isSome then .apply else .scratch
      candidate
      workspaceRef := [branchId]
      budget := child
      reserved }

def decompositionBranches (s : RunState) (owned : List (String × List String)) (child : Budget)
    (reserved : BudgetReservation) : List BranchState :=
  owned.zipIdx.map fun (part, i) =>
    let branchId := s.runId ++ "-d" ++ toString i
    { branchId
      kind := .decomposition
      strategy := .scratch
      subtask := some part.1
      workspaceRef := [branchId]
      budget := child
      reserved
      ownedCriteria := part.2 }

/-- Clones the top-level files of the workdir into the branch workspace; what is already there
stays. -/
def cloneTopLevelFiles (runId : String) (t : Tree) (branchId : String) : Tree :=
  (FileTree.files t).foldl
    (fun u f => match f.1 with
      | [name] =>
        if Text.startsWith name runId || Text.startsWith name "branch-" then u
        else if FileTree.occupied u [branchId, name] then u
        else FileTree.write u [branchId, name] f.2
      | _ => u) t

def dispatchBranches (s : RunState) (t : Tree) (branches : List BranchState)
    (requested : BudgetReservation) : NodeOutcome :=
  { state := { s with branches, reserved := s.reserved.plus requested }
    route := some .always
    workdir := branches.foldl (fun u b => cloneTopLevelFiles s.runId u b.branchId) t }

def refuseFanOut (s : RunState) (t : Tree) (exhausted : Dimension) : NodeOutcome :=
  { state := { s with failureSignal := some {
      source := .orchestrator
      detail := "budget exhausted before fan-out reservation: " ++ exhausted.text
      classHint := some .budget } }
    route := some .preDispatchBudgetFailure
    workdir := t }

/-- Dispatch once the reservation is admitted. -/
def fanOutAdmitted (s : RunState) (t : Tree) (child : Budget)
    (perBranch requested : BudgetReservation) : NodeOutcome :=
  let n := branchCount s
  if s.strategy = some .portfolio then
    dispatchBranches s t (portfolioBranches s n child perBranch) requested
  else match partitionCriteria s (some n) with
    | none =>
      -- Should have been refused at plan; degrade safely.
      { state := { s with strategy := some .scratch, branches := [] }
        route := some .always
        workdir := t }
    | some owned =>
      dispatchBranches s t (decompositionBranches s owned child perBranch) requested

def fanOut (ctx : NodeContext) (s : RunState) (t : Tree) : Except NodeError NodeOutcome :=
  if s.strategy ≠ some .portfolio ∧ s.strategy ≠ some .decomposition then
    .ok { state := s, route := some .always, workdir := t }
  else
    let n := branchCount s
    let fields := childBudget s.budget n
    if h : fields.Valid then
      let perBranch := requestedPerBranch ctx fields
      let requested := perBranch.scale n
      match budgetExcess s.budget.toBudgetFields s.spent s.reserved requested with
      | some exhausted => .ok (refuseFanOut s t exhausted)
      | none => .ok (fanOutAdmitted s t { toBudgetFields := fields, valid := h } perBranch requested)
    else .error (.validationError "Budget")

theorem one_le_branchCount (s : RunState) : 1 ≤ branchCount s := by
  have hb : 1 ≤ s.budget.maxBranches := s.budget.valid.branches.1
  unfold branchCount
  omega

/-- The lease of a branch is a valid budget unless the token budget is below the branch count. -/
theorem childBudget_valid_iff (parent : Budget) {n : ℕ} (hn : 1 ≤ n) :
    (childBudget parent n).Valid ↔ ∀ k ∈ parent.maxTokens, n ≤ k := by
  have hdiv (k : ℕ) : 1 ≤ k / n ↔ n ≤ k := by
    rw [Nat.le_div_iff_mul_le hn, Nat.one_mul]
  constructor
  · intro h k hk
    have ht : 1 ≤ k / n := h.tokens (k / n) (by
      rw [Option.mem_def] at hk ⊢
      simp [childBudget, hk])
    exact (hdiv k).mp ht
  · intro h
    refine ⟨le_max_left _ _, le_max_left _ _, ?_, le_max_left _ _, ?_, by simp [childBudget],
      parent.valid.parallelSteps, parent.valid.claimTimeout⟩
    · intro k hk
      obtain ⟨m, hm, rfl⟩ := Option.map_eq_some_iff.mp hk
      exact (hdiv m).mpr (h m hm)
    · intro q hq
      obtain ⟨p, hp, rfl⟩ := Option.map_eq_some_iff.mp hq
      exact div_nonneg (parent.valid.cost p hp) (Nat.cast_nonneg n)

/-- What a successful reservation promises: the branches are fresh, each holds a reservation for
its script, and together they fit the parent. -/
structure Dispatched (ctx : NodeContext) (s : RunState) (branches : List BranchState) : Prop where
  fresh : ∀ b ∈ branches, b.status = .dispatched ∧ b.spent = {} ∧
    b.reserved.toolCalls = (scriptOrTrue ctx).length
  attempts : s.spent.attempts + branches.length ≤ s.budget.maxAttempts
  toolCalls : s.spent.toolCalls + branches.length * (scriptOrTrue ctx).length ≤
    s.budget.maxToolCalls

theorem portfolioBranches_fresh (s : RunState) (n : ℕ) (child : Budget)
    (reserved : BudgetReservation) :
    ∀ b ∈ portfolioBranches s n child reserved,
      b.status = .dispatched ∧ b.spent = {} ∧ b.reserved = reserved := by
  intro b hb
  obtain ⟨x, -, rfl⟩ := List.mem_map.mp hb
  exact ⟨rfl, rfl, rfl⟩

theorem portfolioBranches_length_le (s : RunState) {n : ℕ} (hn : 1 ≤ n) (child : Budget)
    (reserved : BudgetReservation) : (portfolioBranches s n child reserved).length ≤ n := by
  have htake : (s.bundle.skills.take (n - 1)).length ≤ n - 1 := List.length_take_le _ _
  simp only [portfolioBranches, List.length_map, List.length_zipIdx, List.length_append,
    List.length_cons, List.length_nil]
  omega

theorem decompositionBranches_fresh (s : RunState) (owned : List (String × List String))
    (child : Budget) (reserved : BudgetReservation) :
    ∀ b ∈ decompositionBranches s owned child reserved,
      b.status = .dispatched ∧ b.spent = {} ∧ b.reserved = reserved := by
  intro b hb
  obtain ⟨x, -, rfl⟩ := List.mem_map.mp hb
  exact ⟨rfl, rfl, rfl⟩

theorem dispatched_of_admitted {ctx : NodeContext} {s : RunState} {n : ℕ} {child : BudgetFields}
    (hfits : budgetExcess s.budget.toBudgetFields s.spent s.reserved
      ((requestedPerBranch ctx child).scale n) = none)
    {branches : List BranchState} (hlen : branches.length ≤ n)
    (hfresh : ∀ b ∈ branches, b.status = .dispatched ∧ b.spent = {} ∧
      b.reserved = requestedPerBranch ctx child) : Dispatched ctx s branches where
  fresh b hb := by
    obtain ⟨hstatus, hspent, hreserved⟩ := hfresh b hb
    exact ⟨hstatus, hspent, by rw [hreserved]; rfl⟩
  attempts := by
    have h := attempts_le_of_budgetExcess hfits
    simp only [BudgetReservation.scale, requestedPerBranch, Nat.one_mul] at h
    omega
  toolCalls := by
    have h := toolCalls_le_of_budgetExcess hfits
    simp only [BudgetReservation.scale, requestedPerBranch] at h
    have hmul : branches.length * (scriptOrTrue ctx).length ≤ (scriptOrTrue ctx).length * n := by
      rw [Nat.mul_comm]
      exact Nat.mul_le_mul_left _ hlen
    omega

/-- The spec of `fan_out`: it passes a single strategy through, refuses, degrades, or dispatches
fresh branches that the parent can pay for. -/
theorem fanOut_spec {ctx : NodeContext} {s : RunState} {t : Tree} {o : NodeOutcome}
    (h : fanOut ctx s t = .ok o) :
    (o.route = some .always ∧ (o.state = s ∨ o.state =
      { s with strategy := some .scratch, branches := [] })) ∨
    (∃ exhausted, o = refuseFanOut s t exhausted) ∨
    (∃ branches requested, Dispatched ctx s branches ∧
      o = dispatchBranches s t branches requested) := by
  have hn : 1 ≤ branchCount s := one_le_branchCount s
  unfold fanOut at h
  split at h
  · cases h
    exact Or.inl ⟨rfl, Or.inl rfl⟩
  · dsimp only at h
    split at h
    · split at h
      · cases h
        exact Or.inr (Or.inl ⟨_, rfl⟩)
      · rename_i hfits
        cases h
        unfold fanOutAdmitted
        dsimp only
        split
        · exact Or.inr (Or.inr ⟨_, _, dispatched_of_admitted hfits
            (portfolioBranches_length_le s hn _ _) (portfolioBranches_fresh _ _ _ _), rfl⟩)
        · split
          · exact Or.inl ⟨rfl, Or.inr rfl⟩
          · rename_i owned howned
            have hlen : (decompositionBranches s owned
                { toBudgetFields := childBudget s.budget (branchCount s), valid := by assumption }
                (requestedPerBranch ctx (childBudget s.budget (branchCount s)))).length ≤
                branchCount s := by
              simpa [decompositionBranches] using partitionCriteria_length_le hn howned
            exact Or.inr (Or.inr ⟨_, _, dispatched_of_admitted hfits hlen
              (decompositionBranches_fresh _ _ _ _), rfl⟩)
    · cases h

end Recertia.Graph
