import Mathlib.Algebra.Order.Field.Basic
import Mathlib.Tactic.Linarith
import Recertia.Node.Sound

/-! The budget split of `fan_out`: when the leases of the branches are valid and together stay
within the parent's caps. The float quotient of the cost cap is a parameter. -/
namespace Recertia.Graph

open FileTree (Tree)

/-- The lease of a branch; `div` is the quotient of a float by a count. -/
def leaseOf (div : ℚ → ℕ → ℚ) (parent : Budget) (n : ℕ) : BudgetFields :=
  { childBudget parent n with maxCostUsd := parent.maxCostUsd.map (div · n) }

/-- `fan_out` with the rounding of its only float division left open. -/
def fanOutWith (div : ℚ → ℕ → ℚ) (ctx : NodeContext) (s : RunState) (t : Tree) :
    Except NodeError NodeOutcome :=
  if s.strategy ≠ some .portfolio ∧ s.strategy ≠ some .decomposition then
    .ok { state := s, route := some .always, workdir := t }
  else
    let n := branchCount s
    let fields := leaseOf div s.budget n
    if h : fields.Valid then
      let perBranch := requestedPerBranch ctx fields
      let requested := perBranch.scale n
      match budgetExcess s.budget.toBudgetFields s.spent s.reserved requested with
      | some exhausted => .ok (refuseFanOut s t exhausted)
      | none => .ok (fanOutAdmitted s t { toBudgetFields := fields, valid := h } perBranch requested)
    else .error (.validationError "Budget")

theorem fanOutWith_exact (ctx : NodeContext) (s : RunState) (t : Tree) :
    fanOutWith (fun cost n => cost / n) ctx s t = fanOut ctx s t := rfl

/-- The sum of one cap over the branches. -/
def capTotal (cap : BranchState → ℚ) : List BranchState → ℚ
  | [] => 0
  | b :: rest => cap b + capTotal cap rest

theorem capTotal_eq_mul {cap : BranchState → ℚ} {c : ℚ} :
    ∀ {branches : List BranchState}, (∀ b ∈ branches, cap b = c) →
      capTotal cap branches = branches.length * c := by
  intro branches h
  induction branches with
  | nil => simp [capTotal]
  | cons b rest ih =>
    have hb : cap b = c := h b List.mem_cons_self
    have hrest : capTotal cap rest = rest.length * c :=
      ih fun x hx => h x (List.mem_cons_of_mem _ hx)
    rw [capTotal, hb, hrest, List.length_cons]
    rw [Nat.cast_add, Nat.cast_one, add_one_mul, add_comm]

/-- The budgets of the branches are valid and in every divided dimension their caps sum to at most
the parent's cap. -/
structure CapsFit (parent : Budget) (branches : List BranchState) : Prop where
  valid : ∀ b ∈ branches, b.budget.toBudgetFields.Valid
  attempts : capTotal (fun b => b.budget.maxAttempts) branches ≤ parent.maxAttempts
  toolCalls : capTotal (fun b => b.budget.maxToolCalls) branches ≤ parent.maxToolCalls
  wallClock : capTotal (fun b => b.budget.maxWallClockS) branches ≤ parent.maxWallClockS
  tokens : ∀ k ∈ parent.maxTokens, (∀ b ∈ branches, b.budget.maxTokens.isSome) ∧
    capTotal (fun b => (b.budget.maxTokens.getD 0 : ℕ)) branches ≤ k
  cost : ∀ p ∈ parent.maxCostUsd, (∀ b ∈ branches, b.budget.maxCostUsd.isSome) ∧
    capTotal (fun b => b.budget.maxCostUsd.getD 0) branches ≤ p

def FanOutStrategy (s : RunState) : Prop :=
  s.strategy = some .portfolio ∨ s.strategy = some .decomposition

/-- `fan_out` does not raise: it passes a single strategy through, refuses and leaves the branches
and the reservation alone, or dispatches branches whose caps fit. -/
def SplitsBudget (s : RunState) (result : Except NodeError NodeOutcome) : Prop :=
  ∃ o, result = .ok o ∧
    ((¬ FanOutStrategy s ∧ o.state = s) ∨
      (o.route = some .preDispatchBudgetFailure ∧ o.state.branches = s.branches ∧
        o.state.reserved = s.reserved) ∨
      (o.route = some .always ∧ CapsFit s.budget o.state.branches))

/-- The pydantic bounds on the float fields of a `Spend`. -/
def Spend.Valid (r : Spend) : Prop := 0 ≤ r.wallClockS ∧ 0 ≤ r.costUsd

def BudgetReservation.Valid (r : BudgetReservation) : Prop := 0 ≤ r.wallClockS ∧ 0 ≤ r.costUsd

/-- How many branches an admitted request is split into. -/
def plannedCount (s : RunState) : ℕ :=
  if s.strategy = some .portfolio then min (branchCount s - 1) s.bundle.skills.length + 1
  else ((partitionCriteria s (some (branchCount s))).getD []).length

/-- Whether the parent can reserve all branches. -/
def Admits (ctx : NodeContext) (s : RunState) : Prop :=
  budgetExcess s.budget.toBudgetFields s.spent s.reserved
    ((requestedPerBranch ctx (childBudget s.budget (branchCount s))).scale (branchCount s)) = none

/-- The token cap covers the branch count, and the rounded quotients of the cost cap of an admitted
request do not add up to more than the cost cap. -/
def Divisible (div : ℚ → ℕ → ℚ) (ctx : NodeContext) (s : RunState) : Prop :=
  FanOutSound s ∧ (FanOutStrategy s → Admits ctx s →
    ∀ p ∈ s.budget.maxCostUsd, plannedCount s * div p (branchCount s) ≤ p)

theorem leaseOf_valid_iff {div : ℚ → ℕ → ℚ} (hdiv : ∀ p n, 0 ≤ p → 0 ≤ div p n)
    (parent : Budget) {n : ℕ} (hn : 1 ≤ n) :
    (leaseOf div parent n).Valid ↔ ∀ k ∈ parent.maxTokens, n ≤ k := by
  rw [← childBudget_valid_iff parent hn]
  constructor
  · intro h
    have hcost : ∀ q ∈ (childBudget parent n).maxCostUsd, 0 ≤ q := by
      intro q hq
      obtain ⟨p, hp, rfl⟩ := Option.map_eq_some_iff.mp hq
      exact div_nonneg (parent.valid.cost p hp) (Nat.cast_nonneg n)
    exact ⟨h.attempts, h.toolCalls, h.tokens, h.wallClock, hcost, h.branches, h.parallelSteps,
      h.claimTimeout⟩
  · intro h
    have hcost : ∀ q ∈ (leaseOf div parent n).maxCostUsd, 0 ≤ q := by
      intro q hq
      obtain ⟨p, hp, rfl⟩ := Option.map_eq_some_iff.mp hq
      exact hdiv p n (parent.valid.cost p hp)
    exact ⟨h.attempts, h.toolCalls, h.tokens, h.wallClock, hcost, h.branches, h.parallelSteps,
      h.claimTimeout⟩

theorem plannedCount_le (s : RunState) : plannedCount s ≤ branchCount s := by
  have hn : 1 ≤ branchCount s := one_le_branchCount s
  unfold plannedCount
  split
  · omega
  · cases howned : partitionCriteria s (some (branchCount s)) with
    | none => simp
    | some owned =>
      have hlen : owned.length ≤ branchCount s := partitionCriteria_length_le hn howned
      simpa using hlen

/-- What an admitted request materialises: the planned number of branches, each on the same
lease. -/
structure Materialised (s : RunState) (child : Budget) (o : NodeOutcome) : Prop where
  route : o.route = some .always
  count : o.state.branches.length = plannedCount s
  lease : ∀ b ∈ o.state.branches, b.budget = child

theorem fanOutAdmitted_materialised (s : RunState) (t : Tree) (child : Budget)
    (perBranch requested : BudgetReservation) :
    Materialised s child (fanOutAdmitted s t child perBranch requested) := by
  unfold fanOutAdmitted
  dsimp only
  split
  · rename_i hportfolio
    refine ⟨rfl, ?_, ?_⟩
    · simp [dispatchBranches, portfolioBranches, plannedCount, hportfolio]
    · intro b hb
      obtain ⟨x, -, rfl⟩ := List.mem_map.mp hb
      rfl
  · rename_i hportfolio
    cases howned : partitionCriteria s (some (branchCount s)) with
    | none =>
      have hcount : plannedCount s = 0 := by
        simp only [plannedCount, if_neg hportfolio, howned, Option.getD_none, List.length_nil]
      exact ⟨rfl, hcount.symm, fun b hb => absurd hb List.not_mem_nil⟩
    | some owned =>
      refine ⟨rfl, ?_, ?_⟩
      · simp [dispatchBranches, decompositionBranches, plannedCount, hportfolio, howned]
      · intro b hb
        obtain ⟨x, -, rfl⟩ := List.mem_map.mp hb
        rfl

theorem capTotal_le {cap : BranchState → ℚ} {c n p : ℕ} {branches : List BranchState}
    (h : ∀ b ∈ branches, cap b = c) (hlen : branches.length ≤ n) (hfit : c * n ≤ p) :
    capTotal cap branches ≤ p := by
  have hnat : branches.length * c ≤ p := by
    calc
      branches.length * c ≤ n * c := Nat.mul_le_mul_right c hlen
      _ = c * n := Nat.mul_comm n c
      _ ≤ p := hfit
  rw [capTotal_eq_mul h]
  exact_mod_cast hnat

/-- A cap that covers the branch count is not oversubscribed by its clamped share. -/
theorem clamped_share_le {p n : ℕ} (hn : 1 ≤ n) (hp : n ≤ p) : max 1 (p / n) * n ≤ p := by
  have hshare : 1 ≤ p / n := by
    rw [Nat.le_div_iff_mul_le hn]
    omega
  rw [max_eq_right hshare]
  exact Nat.div_mul_le_self p n

theorem one_le_scriptOrTrue (ctx : NodeContext) : 1 ≤ (scriptOrTrue ctx).length := by
  unfold scriptOrTrue
  split
  · exact Nat.le_refl 1
  · exact Nat.le_refl 1
  · rename_i script hempty hscript
    exact List.length_pos_iff.mpr hempty

/-- An admitted request never rests on a clamp: every cap that is clamped to one per branch covers
the branch count. -/
theorem branchCount_le_of_admits {ctx : NodeContext} {s : RunState} (hadmits : Admits ctx s)
    (hspent : s.spent.Valid) (hreserved : s.reserved.Valid) :
    branchCount s ≤ s.budget.maxAttempts ∧ branchCount s ≤ s.budget.maxToolCalls ∧
      branchCount s ≤ s.budget.maxWallClockS := by
  refine ⟨?_, ?_, ?_⟩
  · have h := attempts_le_of_budgetExcess hadmits
    simp only [BudgetReservation.scale, requestedPerBranch, Nat.one_mul] at h
    omega
  · have h := toolCalls_le_of_budgetExcess hadmits
    simp only [BudgetReservation.scale, requestedPerBranch] at h
    have hmul : 1 * branchCount s ≤ (scriptOrTrue ctx).length * branchCount s :=
      Nat.mul_le_mul_right _ (one_le_scriptOrTrue ctx)
    omega
  · have h := not_lt.mp (of_decide_eq_false (budgetExcess_none hadmits .wallClockS))
    simp only [BudgetReservation.scale, requestedPerBranch] at h
    -- The request of a branch is at least a second, since its own cap is clamped to one.
    have hsecond : (1 : ℚ) ≤ min 60 ((childBudget s.budget (branchCount s)).maxWallClockS : ℚ) := by
      refine le_min (by decide) ?_
      exact_mod_cast le_max_left 1 (s.budget.maxWallClockS / branchCount s)
    have hcount : (branchCount s : ℚ) ≤
        min 60 ((childBudget s.budget (branchCount s)).maxWallClockS : ℚ) * branchCount s :=
      le_mul_of_one_le_left (Nat.cast_nonneg _) hsecond
    have hfits : (branchCount s : ℚ) ≤ s.budget.maxWallClockS := by
      have h1 := hspent.1
      have h2 := hreserved.1
      linarith
    exact_mod_cast hfits

/-- An admitted request fits the caps exactly when the quotients of the cost cap do. -/
theorem capsFit_iff {div : ℚ → ℕ → ℚ} {ctx : NodeContext} {s : RunState} {child : Budget}
    {o : NodeOutcome} (hadmits : Admits ctx s) (hspent : s.spent.Valid)
    (hreserved : s.reserved.Valid) (ho : Materialised s child o)
    (hchild : child.toBudgetFields = leaseOf div s.budget (branchCount s)) :
    CapsFit s.budget o.state.branches ↔
      ∀ p ∈ s.budget.maxCostUsd, plannedCount s * div p (branchCount s) ≤ p := by
  have hn : 1 ≤ branchCount s := one_le_branchCount s
  obtain ⟨hattempts, htools, hwall⟩ := branchCount_le_of_admits hadmits hspent hreserved
  have hlen : o.state.branches.length ≤ branchCount s := ho.count ▸ plannedCount_le s
  have hlease : ∀ b ∈ o.state.branches,
      b.budget.toBudgetFields = leaseOf div s.budget (branchCount s) := by
    intro b hb
    rw [ho.lease b hb, hchild]
  have hcost : ∀ p ∈ s.budget.maxCostUsd, ∀ b ∈ o.state.branches,
      b.budget.maxCostUsd = some (div p (branchCount s)) := by
    intro p hp b hb
    rw [hlease b hb, leaseOf, Option.mem_def.mp hp, Option.map_some]
  have htotal : ∀ p ∈ s.budget.maxCostUsd,
      capTotal (fun b => b.budget.maxCostUsd.getD 0) o.state.branches =
        plannedCount s * div p (branchCount s) := by
    intro p hp
    rw [← ho.count]
    apply capTotal_eq_mul
    intro b hb
    rw [hcost p hp b hb, Option.getD_some]
  constructor
  · intro h p hp
    rw [← htotal p hp]
    exact (h.cost p hp).2
  · intro h
    refine ⟨fun b _ => b.budget.valid, ?_, ?_, ?_, ?_, ?_⟩
    · exact capTotal_le (fun b hb => by rw [hlease b hb]; rfl) hlen
        (clamped_share_le hn hattempts)
    · exact capTotal_le (fun b hb => by rw [hlease b hb]; rfl) hlen (clamped_share_le hn htools)
    · exact capTotal_le (fun b hb => by rw [hlease b hb]; rfl) hlen (clamped_share_le hn hwall)
    · intro k hk
      have htokens : ∀ b ∈ o.state.branches, b.budget.maxTokens = some (k / branchCount s) := by
        intro b hb
        rw [hlease b hb, leaseOf, childBudget, Option.mem_def.mp hk, Option.map_some]
      refine ⟨fun b hb => by rw [htokens b hb]; rfl, ?_⟩
      exact capTotal_le (fun b hb => by rw [htokens b hb]; rfl) hlen (Nat.div_mul_le_self k _)
    · intro p hp
      refine ⟨fun b hb => by rw [hcost p hp b hb]; rfl, ?_⟩
      rw [htotal p hp]
      exact h p hp

theorem fanOutWith_single {div : ℚ → ℕ → ℚ} {ctx : NodeContext} {s : RunState} {t : Tree}
    (h : ¬ FanOutStrategy s) :
    fanOutWith div ctx s t = .ok { state := s, route := some .always, workdir := t } :=
  if_pos (not_or.mp h)

theorem fanOutWith_invalid {div : ℚ → ℕ → ℚ} {ctx : NodeContext} {s : RunState} {t : Tree}
    (h : FanOutStrategy s) (hlease : ¬ (leaseOf div s.budget (branchCount s)).Valid) :
    fanOutWith div ctx s t = .error (.validationError "Budget") := by
  have hstrategy : ¬ (s.strategy ≠ some .portfolio ∧ s.strategy ≠ some .decomposition) :=
    fun hnot => (not_or.mpr hnot) h
  unfold fanOutWith
  rw [if_neg hstrategy]
  exact dif_neg hlease

/-- With a valid lease `fan_out` refuses, or it materialises branches on that lease. -/
theorem fanOutWith_valid {div : ℚ → ℕ → ℚ} {ctx : NodeContext} {s : RunState} {t : Tree}
    (h : FanOutStrategy s) (hlease : (leaseOf div s.budget (branchCount s)).Valid) :
    (¬ Admits ctx s ∧ ∃ exhausted, fanOutWith div ctx s t = .ok (refuseFanOut s t exhausted)) ∨
    (Admits ctx s ∧ ∃ o, fanOutWith div ctx s t = .ok o ∧
      Materialised s { toBudgetFields := leaseOf div s.budget (branchCount s), valid := hlease }
        o) := by
  have hstrategy : ¬ (s.strategy ≠ some .portfolio ∧ s.strategy ≠ some .decomposition) :=
    fun hnot => (not_or.mpr hnot) h
  have hrequest : requestedPerBranch ctx (leaseOf div s.budget (branchCount s)) =
      requestedPerBranch ctx (childBudget s.budget (branchCount s)) := rfl
  unfold fanOutWith
  rw [if_neg hstrategy]
  dsimp only
  rw [dif_pos hlease, hrequest]
  split
  · rename_i exhausted hexcess
    exact Or.inl ⟨fun hadmits => Option.some_ne_none _ (hexcess.symm.trans hadmits), exhausted, rfl⟩
  · rename_i hfits
    exact Or.inr ⟨hfits, _, rfl, fanOutAdmitted_materialised s t _ _ _⟩

/-- Without rounding only the token cap can stand in the way. -/
theorem divisible_exact (ctx : NodeContext) (s : RunState) :
    Divisible (fun cost n => cost / n) ctx s ↔ FanOutSound s := by
  refine ⟨fun h => h.1, fun h => ⟨h, fun _ _ p hp => ?_⟩⟩
  have hn : (0 : ℚ) < branchCount s := by exact_mod_cast one_le_branchCount s
  have hcount : (plannedCount s : ℚ) ≤ branchCount s := by exact_mod_cast plannedCount_le s
  have hshare : 0 ≤ p / branchCount s := div_nonneg (s.budget.valid.cost p hp) hn.le
  calc
    plannedCount s * (p / branchCount s) ≤ branchCount s * (p / branchCount s) :=
      mul_le_mul_of_nonneg_right hcount hshare
    _ = p := mul_div_cancel₀ p hn.ne'

/-- The budget split is total and conserving exactly when the caps can be divided. -/
theorem splits_budget_iff {div : ℚ → ℕ → ℚ} (hdiv : ∀ p n, 0 ≤ p → 0 ≤ div p n)
    (ctx : NodeContext) (s : RunState) (t : Tree) (hspent : s.spent.Valid)
    (hreserved : s.reserved.Valid) :
    SplitsBudget s (fanOutWith div ctx s t) ↔ Divisible div ctx s := by
  by_cases hfan : FanOutStrategy s
  · have hvalid := leaseOf_valid_iff hdiv s.budget (one_le_branchCount s)
    by_cases hlease : (leaseOf div s.budget (branchCount s)).Valid
    · have hsound : FanOutSound s := fun _ => hvalid.mp hlease
      rcases @fanOutWith_valid div ctx s t hfan hlease with
        ⟨hrefuse, exhausted, ho⟩ | ⟨hadmits, o, ho, hmade⟩
      · refine ⟨fun _ => ⟨hsound, fun _ hadmits => absurd hadmits hrefuse⟩, fun _ => ?_⟩
        exact ⟨_, ho, Or.inr (Or.inl ⟨rfl, rfl, rfl⟩)⟩
      · have hfit := capsFit_iff hadmits hspent hreserved hmade rfl
        constructor
        · rintro ⟨o', ho', hcases⟩
          obtain rfl : o = o' := Except.ok.inj (ho.symm.trans ho')
          refine ⟨hsound, fun _ _ => hfit.mp ?_⟩
          rcases hcases with ⟨hsingle, -⟩ | ⟨hroute, -⟩ | ⟨-, hcaps⟩
          · exact absurd hfan hsingle
          · rw [hmade.route] at hroute
            cases hroute
          · exact hcaps
        · intro h
          exact ⟨o, ho, Or.inr (Or.inr ⟨hmade.route, hfit.mpr (h.2 hfan hadmits)⟩)⟩
    · refine ⟨?_, fun h => absurd (hvalid.mpr (h.1 hfan)) hlease⟩
      rintro ⟨o, ho, -⟩
      rw [fanOutWith_invalid hfan hlease] at ho
      cases ho
  · refine ⟨fun _ => ⟨fun h => absurd h hfan, fun h => absurd h hfan⟩, fun _ => ?_⟩
    exact ⟨_, fanOutWith_single hfan, Or.inl ⟨hfan, rfl⟩⟩

/-- A portfolio run whose parent caps tokens and cost. -/
def cappedPortfolio : RunState where
  runId := "run-1"
  task := { request := some "tidy up", requireGoalOrRequest := Or.inr ⟨"tidy up", rfl, by decide⟩ }
  strategy := some .portfolio
  budget := { maxTokens := some 9, maxCostUsd := some 5, valid := by decide }

theorem splits_budget_portfolio :
    SplitsBudget cappedPortfolio (fanOutWith (fun cost n => cost / n) {} cappedPortfolio ∅) := by
  have hdiv : ∀ (p : ℚ) (n : ℕ), 0 ≤ p → 0 ≤ p / n :=
    fun p n hp => div_nonneg hp (Nat.cast_nonneg n)
  have hsound : FanOutSound cappedPortfolio := by
    intro _ k hk
    obtain rfl : 9 = k := Option.some.inj hk
    decide
  exact (splits_budget_iff hdiv {} cappedPortfolio ∅ ⟨le_refl 0, le_refl 0⟩
    ⟨le_refl 0, le_refl 0⟩).mpr ((divisible_exact _ _).mpr hsound)

/-- A portfolio of two branches on a token cap of one. -/
def oneTokenPortfolio : RunState :=
  { cappedPortfolio with budget := { maxTokens := some 1, valid := by decide } }

theorem not_splits_budget_one_token :
    ¬ SplitsBudget oneTokenPortfolio
      (fanOutWith (fun cost n => cost / n) {} oneTokenPortfolio ∅) := by
  rintro ⟨o, ho, -⟩
  have hlease : ¬ (leaseOf (fun cost n => cost / n) oneTokenPortfolio.budget
      (branchCount oneTokenPortfolio)).Valid := by decide
  rw [fanOutWith_invalid (Or.inl rfl) hlease] at ho
  cases ho

end Recertia.Graph
