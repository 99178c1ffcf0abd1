import Recertia.Node.FanOutReserve

/-! A branch that `fan_out` admitted fits its lease: the estimate of the admission and the charge of
`solve_branches` come from the same script, and what the parent can reserve for all branches each
of them can spend. -/
namespace Recertia.Graph

open FileTree (Tree)

/-- The record of a branch whose script ran on its lease. -/
structure WithinLease (b b' : BranchState) : Prop where
  branchId : b'.branchId = b.branchId
  ran : b'.status = .succeeded ∨ b'.status = .failed
  attempts : b'.spent.attempts ≤ b.budget.maxAttempts
  toolCalls : b'.spent.toolCalls ≤ b.budget.maxToolCalls
  tokens : ∀ k ∈ b.budget.maxTokens, b'.spent.tokens ≤ k
  cost : ∀ q ∈ b.budget.maxCostUsd, b'.spent.costUsd ≤ q

theorem branchCost_mono {n k : ℕ} (h : n ≤ k) : branchCost n ≤ branchCost k := by
  have hcast : (n : ℚ) ≤ k := by exact_mod_cast h
  unfold branchCost
  linarith

theorem fanOutAdmitted_fresh (s : RunState) (t : Tree) (child : Budget)
    (perBranch requested : BudgetReservation) :
    ∀ b ∈ (fanOutAdmitted s t child perBranch requested).state.branches,
      b.status = .dispatched ∧ b.spent = {} := by
  unfold fanOutAdmitted
  dsimp only
  split
  · intro b hb
    obtain ⟨hstatus, hspent, -⟩ := portfolioBranches_fresh _ _ _ _ b hb
    exact ⟨hstatus, hspent⟩
  · split
    · intro b hb
      exact absurd hb List.not_mem_nil
    · intro b hb
      obtain ⟨hstatus, hspent, -⟩ := decompositionBranches_fresh _ _ _ _ b hb
      exact ⟨hstatus, hspent⟩

/-- A dispatched branch is a fresh one on an equal share of an admitted request. -/
structure Leased (ctx : NodeContext) (s : RunState) (b : BranchState) : Prop where
  admits : Admits ctx s
  budget : b.budget.toBudgetFields = childBudget s.budget (branchCount s)
  status : b.status = .dispatched
  spent : b.spent = {}

theorem leased_of_dispatched {ctx : NodeContext} {s : RunState} {t : Tree} {o : NodeOutcome}
    (ho : fanOut ctx s t = .ok o) {b : BranchState} (hb : b ∈ dispatchedBranches o) :
    Leased ctx s b := by
  rcases fanOut_cases ctx s t with ⟨hdispatches, child, hchild⟩ | ⟨-, hquiet⟩
  · obtain ⟨hfan, hsound, hadmits, -⟩ := hdispatches
    have hmade : o = fanOutAdmitted s t child
        (requestedPerBranch ctx (childBudget s.budget (branchCount s)))
        ((requestedPerBranch ctx (childBudget s.budget (branchCount s))).scale (branchCount s)) :=
      Except.ok.inj (ho.symm.trans hchild)
    have hmem : b ∈ o.state.branches := by
      unfold dispatchedBranches at hb
      split at hb
      · exact hb
      · exact absurd hb List.not_mem_nil
    obtain ⟨hstatus, hspent⟩ : b.status = .dispatched ∧ b.spent = {} := by
      rw [hmade] at hmem
      exact fanOutAdmitted_fresh s t child _ _ b hmem
    -- The lease is the quotient that `Budget(...)` accepted.
    have hvalid : (leaseOf (fun cost n => cost / n) s.budget (branchCount s)).Valid :=
      (childBudget_valid_iff s.budget (one_le_branchCount s)).mpr (hsound hfan)
    rcases @fanOutWith_valid (fun cost n => cost / n) ctx s t hfan hvalid with
      ⟨hrefuse, -⟩ | ⟨-, o', ho', hlease⟩
    · exact absurd hadmits hrefuse
    · rw [fanOutWith_exact, ho] at ho'
      obtain rfl : o = o' := Except.ok.inj ho'
      have hbudget := hlease.lease b hmem
      exact ⟨hadmits, by rw [hbudget]; rfl, hstatus, hspent⟩
  · rw [(hquiet o ho).1] at hb
    exact absurd hb List.not_mem_nil

/-- The share of the tool calls covers the script. -/
theorem script_le_maxToolCalls {ctx : NodeContext} {s : RunState} (h : Admits ctx s) :
    (scriptOrTrue ctx).length ≤ (childBudget s.budget (branchCount s)).maxToolCalls := by
  have hfits := toolCalls_le_of_budgetExcess h
  simp only [BudgetReservation.scale, requestedPerBranch] at hfits
  have hshare : (scriptOrTrue ctx).length ≤ s.budget.maxToolCalls / branchCount s := by
    rw [Nat.le_div_iff_mul_le (one_le_branchCount s)]
    omega
  exact hshare.trans (le_max_right _ _)

/-- The share of the cost cap covers the whole script. -/
theorem branchCost_le_maxCost {ctx : NodeContext} {s : RunState} (h : Admits ctx s)
    (hspent : s.spent.Valid) (hreserved : s.reserved.Valid) :
    ∀ q ∈ (childBudget s.budget (branchCount s)).maxCostUsd,
      branchCost (scriptOrTrue ctx).length ≤ q := by
  intro q hq
  obtain ⟨p, hp, rfl⟩ := Option.map_eq_some_iff.mp hq
  have hn : (0 : ℚ) < branchCount s := by exact_mod_cast one_le_branchCount s
  have hfits := budgetExcess_none h .costUsd
  have hp' : s.budget.toBudgetFields.maxCostUsd = some p := hp
  simp only [exceeds, hp', Option.any_some, BudgetReservation.scale, requestedPerBranch] at hfits
  have htotal := not_lt.mp (of_decide_eq_false hfits)
  rw [le_div_iff₀ hn]
  have h1 := hspent.2
  have h2 := hreserved.2
  linarith

/-- The projection of a branch's whole script stays within its lease. -/
theorem leaseExcess_none_of_leased {ctx : NodeContext} {s : RunState} {b : BranchState}
    (h : Leased ctx s b) (hspent : s.spent.Valid) (hreserved : s.reserved.Valid) :
    leaseExcess b (scriptOrTrue ctx).length = none := by
  have htools := script_le_maxToolCalls h.admits
  have hcost := branchCost_le_maxCost h.admits hspent hreserved
  apply List.find?_eq_none.mpr
  intro d _
  rw [h.budget, projectedSpend, h.spent]
  cases d with
  | attempts => simp [exceeds, childBudget]
  | toolCalls => simpa [exceeds] using htools
  | tokens => simp [exceeds]
  | wallClockS => simp [exceeds]
  | costUsd =>
    simp only [exceeds, zero_add, add_zero, Option.any_eq_true, decide_eq_true_eq, not_exists,
      not_and, not_lt]
    exact hcost
  | versionsWritten => simp [exceeds]

theorem runBranch_within {py : Platform} {ctx : NodeContext} {s s' : RunState}
    {b b' : BranchState} {t t' : Tree} (h : Leased ctx s b) (hspent : s.spent.Valid)
    (hreserved : s.reserved.Valid) (hrun : runBranch py ctx s' b t = .ok (b', t')) :
    WithinLease b b' := by
  have hnone := leaseExcess_none_of_leased h hspent hreserved
  unfold runBranch at hrun
  simp only [hnone, Option.isSome_none] at hrun
  obtain ⟨results, -, hrun⟩ := Fallible.bind_eq_ok.mp hrun
  cases hrun
  -- A command that fails ends the script, so the charge is at most the estimate.
  have hexecuted := runBranchScript_executed_le ctx b.branchId 0 (scriptOrTrue ctx) t
  rw [Nat.zero_add] at hexecuted
  refine ⟨rfl, ?_, ?_, ?_, ?_, ?_⟩
  · dsimp only
    split
    · exact Or.inl rfl
    · exact Or.inr rfl
  · exact b.budget.valid.attempts
  · rw [h.budget]
    exact hexecuted.trans (script_le_maxToolCalls h.admits)
  · intro k _
    exact Nat.zero_le k
  · rw [h.budget]
    intro q hq
    exact (branchCost_mono hexecuted).trans
      (branchCost_le_maxCost h.admits hspent hreserved q hq)

/-- The record of every pending branch is what running it gave. -/
theorem runBranches_ran {py : Platform} {ctx : NodeContext} {s : RunState}
    {bs : List BranchState} {m : AttemptMeter} {attempts : ℕ} {t : Tree} {run : BranchesRun}
    (h : runBranches py ctx s bs m attempts t = .ok run) :
    List.Forall₂ (fun b b' => b.status.pending = true →
      ∃ u u', runBranch py ctx s b u = .ok (b', u')) bs run.branches := by
  induction bs generalizing m attempts t run with
  | nil =>
    cases h
    exact .nil
  | cons b bs ih =>
    unfold runBranches at h
    by_cases hp : b.status.pending
    · simp only [hp, if_true] at h
      obtain ⟨⟨b', t'⟩, hb, h⟩ := Fallible.bind_eq_ok.mp h
      obtain ⟨rest, hrest, h⟩ := Fallible.bind_eq_ok.mp h
      cases h
      exact .cons (fun _ => ⟨t, t', hb⟩) (ih hrest)
    · simp only [hp] at h
      obtain ⟨rest, hrest, h⟩ := Fallible.bind_eq_ok.mp h
      cases h
      exact .cons (fun hpending => absurd hpending hp) (ih hrest)

theorem solveBranches_ran {py : Platform} {ctx : NodeContext} {s : RunState} {attemptNo : ℕ}
    {t : Tree} {o : NodeOutcome} (h : solveBranches py ctx s attemptNo t = .ok o) :
    List.Forall₂ (fun b b' => b.status.pending = true →
      ∃ u u', runBranch py ctx s b u = .ok (b', u')) s.branches o.state.branches := by
  unfold solveBranches at h
  obtain ⟨run, hrun, h⟩ := Fallible.bind_eq_ok.mp h
  dsimp only at h
  split at h
  · cases h
    exact runBranches_ran hrun
  · cases h
    exact runBranches_ran hrun

/-- Whatever else changed since, a branch that was dispatched for a script fits its lease when that
script runs, and what is recorded for it stays within the lease. -/
theorem admitted_branch_within_lease {ctx ctx' : NodeContext} {s : RunState} {t : Tree}
    {o : NodeOutcome} (hspent : s.spent.Valid) (hreserved : s.reserved.Valid)
    (ho : fanOut ctx s t = .ok o) (hscript : ctx'.script = ctx.script) :
    (∀ b ∈ dispatchedBranches o, leaseExcess b (scriptOrTrue ctx').length = none) ∧
    ∀ (py : Platform) (s' : RunState) (attemptNo : ℕ) (t' : Tree) (o' : NodeOutcome),
      solveBranches py ctx' s' attemptNo t' = .ok o' →
        List.Forall₂ (fun b b' => b ∈ dispatchedBranches o → WithinLease b b')
          s'.branches o'.state.branches := by
  have hsame : scriptOrTrue ctx' = scriptOrTrue ctx := by
    unfold scriptOrTrue
    rw [hscript]
  have hleased : ∀ b ∈ dispatchedBranches o, Leased ctx' s b := by
    intro b hb
    obtain ⟨hadmits, hbudget, hstatus, hfresh⟩ := leased_of_dispatched ho hb
    refine ⟨?_, hbudget, hstatus, hfresh⟩
    simpa only [Admits, requestedPerBranch, hsame] using hadmits
  constructor
  · intro b hb
    exact leaseExcess_none_of_leased (hleased b hb) hspent hreserved
  · intro py s' attemptNo t' o' ho'
    apply (solveBranches_ran ho').imp
    intro b b' hran hb
    have hpending : b.status.pending = true := by
      rw [(hleased b hb).status]
      rfl
    obtain ⟨u, u', hrun⟩ := hran hpending
    exact runBranch_within (hleased b hb) hspent hreserved hrun

/-- The two branches of a portfolio with capped tokens and cost. -/
theorem admitted_branch_within_lease_portfolio :
    ∃ o, fanOut {} cappedPortfolio ∅ = .ok o ∧ dispatchedBranches o ≠ [] ∧
      (∀ b ∈ dispatchedBranches o, leaseExcess b (scriptOrTrue {}).length = none) ∧
      ∀ (py : Platform) (s' : RunState) (attemptNo : ℕ) (t' : Tree) (o' : NodeOutcome),
        solveBranches py {} s' attemptNo t' = .ok o' →
          List.Forall₂ (fun b b' => b ∈ dispatchedBranches o → WithinLease b b')
            s'.branches o'.state.branches := by
  have hdispatches : Dispatches {} cappedPortfolio := by
    refine ⟨Or.inl rfl, ?_, by unfold Admits; decide +kernel, by decide⟩
    intro _ k hk
    obtain rfl : 9 = k := Option.some.inj hk
    decide
  rcases fanOut_cases {} cappedPortfolio ∅ with ⟨h, child, ho⟩ | ⟨hnone, -⟩
  · refine ⟨_, ho, ?_, admitted_branch_within_lease ⟨le_refl 0, le_refl 0⟩ ⟨le_refl 0, le_refl 0⟩
      ho rfl⟩
    have hmade := fanOutAdmitted_materialised cappedPortfolio ∅ child
      (requestedPerBranch {} (childBudget cappedPortfolio.budget (branchCount cappedPortfolio)))
      ((requestedPerBranch {} (childBudget cappedPortfolio.budget
        (branchCount cappedPortfolio))).scale (branchCount cappedPortfolio))
    rw [dispatchedBranches_admitted _ _ _ _ h]
    apply List.ne_nil_of_length_pos
    rw [hmade.count]
    exact plannedCount_pos_of_dispatches h
  · exact absurd hdispatches hnone

end Recertia.Graph
