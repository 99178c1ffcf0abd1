import Recertia.Lib.Fallible
import Recertia.Node.Solve

/-! What one attempt leaves in the state: each path of `solve` closes exactly one attempt, and the
calls it charges are counted from the inputs of the hop. -/
namespace Recertia.Graph

open FileTree (Tree)

/-- The outcome closes an attempt over `base`: it charges `attempts` attempts and `toolCalls`
calls, and names the route that its signal allows. -/
structure ClosesAttempt (base : RunState) (attempts toolCalls : ℕ) (o : NodeOutcome) : Prop where
  state : ∃ spent ref signal, o.state =
    { base with
      attemptNo := base.attemptNo + 1, spent, transcriptRef := ref, failureSignal := signal }
  attempts : o.state.spent.attempts = base.spent.attempts + attempts
  toolCalls : o.state.spent.toolCalls = base.spent.toolCalls + toolCalls
  versionsWritten : o.state.spent.versionsWritten = base.spent.versionsWritten
  route : (o.route = some .preValidationFailureSignal ∧ o.state.failureSignal.isSome = true) ∨
    (o.route = some .attemptCompleted ∧ o.state.failureSignal = none ∧
      o.state.transcriptRef.isSome = true)

theorem failed_closes {base : RunState} {m : AttemptMeter} (hm : m.committed = base.spent)
    (ref : Option String) (e : ℚ) (n : ℕ) (signal : FailureSignal) (t : Tree) :
    ClosesAttempt base n m.toolCalls
      (failed (withTranscript base ref) m e (base.attemptNo + 1) n signal t) where
  state := ⟨_, _, _, rfl⟩
  attempts := by simp [failed, hm]
  toolCalls := by simp [failed, hm]
  versionsWritten := by simp [failed, hm]
  route := Or.inl ⟨rfl, rfl⟩

theorem completed_closes {base : RunState} {m : AttemptMeter} (hm : m.committed = base.spent)
    (ref : String) (e : ℚ) (n : ℕ) (t : Tree) :
    ClosesAttempt base n m.toolCalls
      (completed base m e (base.attemptNo + 1) n ref t) where
  state := ⟨_, _, _, rfl⟩
  attempts := by simp [completed, hm]
  toolCalls := by simp [completed, hm]
  versionsWritten := by simp [completed, hm]
  route := Or.inr ⟨rfl, rfl, rfl⟩

/-- The commands that a script dispatches: those up to the first one that fails. -/
def dispatched (ctx : NodeContext) : ℕ → List String → Tree → ℕ
  | _, [], _ => 0
  | opSeq, command :: rest, t =>
    if (ctx.command opSeq command t).returncode ≠ 0 then 1
    else 1 + dispatched ctx (opSeq + 1) rest (ctx.command opSeq command t).workdir

theorem solveLegacyScript_closes (ctx : NodeContext) (s : RunState) (opSeq : ℕ)
    (script : List String) (m : AttemptMeter) (t : Tree) (hm : m.committed = s.spent) :
    ClosesAttempt s 1 (m.toolCalls + dispatched ctx opSeq script t)
      (solveLegacyScript ctx s (s.attemptNo + 1) opSeq script m t) := by
  induction script generalizing opSeq m t with
  | nil =>
    unfold solveLegacyScript dispatched
    exact completed_closes hm _ _ _ _
  | cons command rest ih =>
    unfold solveLegacyScript dispatched
    have hm' : (m.charge 1 0 0).committed = s.spent := hm
    by_cases hrc : (ctx.command opSeq command t).returncode ≠ 0
    · simp only [if_pos hrc]
      exact failed_closes hm' s.transcriptRef _ _ _ _
    · simp only [if_neg hrc]
      have hrest := ih (opSeq + 1) (m.charge 1 0 0) (ctx.command opSeq command t).workdir hm'
      rwa [AttemptMeter.charge_toolCalls, Nat.add_assoc] at hrest

/-- A preflight before every dispatch keeps the attempt inside the cap. -/
theorem solveScriptViaTools_closes (ctx : NodeContext) (s : RunState) (opSeq : ℕ)
    (script : List String) (m : AttemptMeter) (t : Tree) (hm : m.committed = s.spent)
    (hb : m.budget = s.budget) :
    ∃ n, ClosesAttempt s 1 n (solveScriptViaTools ctx s (s.attemptNo + 1) opSeq script m t) ∧
      (s.spent.toolCalls + m.toolCalls ≤ s.budget.maxToolCalls →
        s.spent.toolCalls + n ≤ s.budget.maxToolCalls) := by
  induction script generalizing opSeq m t with
  | nil =>
    unfold solveScriptViaTools
    exact ⟨m.toolCalls, completed_closes hm _ _ _ _, fun hcap => hcap⟩
  | cons command rest ih =>
    unfold solveScriptViaTools
    split
    · exact ⟨m.toolCalls, failed_closes hm _ _ _ _ _, fun hcap => hcap⟩
    · rename_i hfits
      have hroom := AttemptMeter.toolCalls_of_preflight hfits
      rw [hm, hb] at hroom
      have hcap : s.spent.toolCalls + (m.toolCalls + 1) ≤ s.budget.maxToolCalls := by omega
      let m' := m.charge 1 (ctx.toolUsage opSeq).tokens (ctx.toolUsage opSeq).costUsd
      have hm' : m'.committed = s.spent := hm
      by_cases hrc : (ctx.command opSeq command t).returncode ≠ 0
      · simp only [if_pos hrc]
        exact ⟨m'.toolCalls, failed_closes hm' _ _ _ _ _, fun _ => hcap⟩
      · simp only [if_neg hrc]
        obtain ⟨n, hclose, hn⟩ := ih (opSeq + 1) m' (ctx.command opSeq command t).workdir hm' hb
        exact ⟨n, hclose, fun _ => hn hcap⟩

/-- The observe-act loop preflights in the same way. -/
theorem solveScratchObserveAct_closes (ctx : NodeContext) (s : RunState) (remaining step : ℕ)
    (lastError : Option String) (m : AttemptMeter) (t : Tree) (hm : m.committed = s.spent)
    (hb : m.budget = s.budget) :
    ∃ n, ClosesAttempt s 1 n
        (solveScratchObserveAct ctx s (s.attemptNo + 1) remaining step lastError m t) ∧
      (s.spent.toolCalls + m.toolCalls ≤ s.budget.maxToolCalls →
        s.spent.toolCalls + n ≤ s.budget.maxToolCalls) := by
  induction remaining generalizing step lastError m t with
  | zero =>
    unfold solveScratchObserveAct
    exact ⟨m.toolCalls, failed_closes hm _ _ _ _ _, fun hcap => hcap⟩
  | succ remaining ih =>
    unfold solveScratchObserveAct
    split
    · exact ⟨m.toolCalls, failed_closes hm _ _ _ _ _, fun hcap => hcap⟩
    · rename_i hfits
      have hroom := AttemptMeter.toolCalls_of_preflight hfits
      rw [hm, hb] at hroom
      have hcap : s.spent.toolCalls + (m.toolCalls + 1) ≤ s.budget.maxToolCalls := by omega
      split
      · exact ⟨m.toolCalls, failed_closes hm _ _ _ _ _, fun hcap => hcap⟩
      -- A step without a dispatch is charged for the model only.
      · exact ih _ _ _ _ hm hb
      · exact ih _ _ _ _ hm hb
      · rename_i cost command usage answer hstep
        let m' := (m.charge 0 cost.tokens cost.costUsd).charge 1 usage.tokens usage.costUsd
        have hm' : m'.committed = s.spent := hm
        by_cases hrc : answer.returncode ≠ 0
        · simp only [if_pos hrc]
          obtain ⟨n, hclose, hn⟩ := ih (step + 1)
            (some (exitDetail step answer.returncode command)) m' answer.workdir hm' hb
          exact ⟨n, hclose, fun _ => hn hcap⟩
        · simp only [if_neg hrc]
          exact ⟨m'.toolCalls, completed_closes hm' _ _ _ _, fun _ => hcap⟩

theorem solveViaApplicator_closes (ctx : NodeContext) (s : RunState) (t : Tree) :
    ClosesAttempt s 1 (ctx.application t).toolCalls
      (solveViaApplicator ctx s (s.attemptNo + 1) t) := by
  have hcharge : ((AttemptMeter.opened s).charge (ctx.application t).toolCalls
      (ctx.application t).usage.tokens (ctx.application t).usage.costUsd).toolCalls =
      (ctx.application t).toolCalls := Nat.zero_add _
  unfold solveViaApplicator
  rw [← hcharge]
  by_cases hok : (ctx.application t).ok
  · simp only [hok, if_true]
    exact completed_closes (by rfl) _ _ _ _
  · simp only [hok]
    exact failed_closes (by rfl) _ _ _ _ _

/-- The calls that a branch is charged for: a lease that the script does not fit is charged for
the whole script, else the commands that ran count. -/
def branchCharge (ctx : NodeContext) (b : BranchState) (t : Tree) : ℕ × Tree :=
  if (leaseExcess b (scriptOrTrue ctx).length).isSome then
    (b.spent.toolCalls + (scriptOrTrue ctx).length, t)
  else (runBranchScript ctx b.branchId 0 (scriptOrTrue ctx) t).2

/-- The calls that the pending branches are charged for. -/
def chargedByBranches (ctx : NodeContext) : List BranchState → Tree → ℕ
  | [], _ => 0
  | b :: bs, t =>
    if b.status.pending then
      (branchCharge ctx b t).1 + chargedByBranches ctx bs (branchCharge ctx b t).2
    else chargedByBranches ctx bs t

theorem runBranchScript_executed_le (ctx : NodeContext) (branchId : String) (executed : ℕ)
    (script : List String) (t : Tree) :
    (runBranchScript ctx branchId executed script t).2.1 ≤ executed + script.length := by
  induction script generalizing executed t with
  | nil => exact le_refl executed
  | cons command rest ih =>
    unfold runBranchScript
    by_cases hrc : (ctx.branchCommand branchId executed command t).returncode ≠ 0
    · simp only [if_pos hrc, List.length_cons]
      omega
    · simp only [if_neg hrc, List.length_cons]
      have hrest := ih (executed + 1) (ctx.branchCommand branchId executed command t).workdir
      omega

theorem branchCharge_le (ctx : NodeContext) (b : BranchState) (t : Tree)
    (hspent : b.spent.toolCalls = 0) :
    (branchCharge ctx b t).1 ≤ (scriptOrTrue ctx).length := by
  unfold branchCharge
  split
  · simp [hspent]
  · have hrun := runBranchScript_executed_le ctx b.branchId 0 (scriptOrTrue ctx) t
    omega

/-- What running a branch leaves: a received or timed-out branch of the same identity, charged for
one more attempt. -/
structure BranchRun (b b' : BranchState) : Prop where
  branchId : b'.branchId = b.branchId
  kind : b'.kind = b.kind
  notPending : b'.status.pending = false
  attempts : b.spent.attempts = 0 → b'.spent.attempts = 1

theorem runBranch_spec {py : Platform} {ctx : NodeContext} {s : RunState} {b b' : BranchState}
    {t t' : Tree} (h : runBranch py ctx s b t = .ok (b', t')) :
    BranchRun b b' ∧ b'.spent.toolCalls = (branchCharge ctx b t).1 ∧
      t' = (branchCharge ctx b t).2 := by
  unfold runBranch at h
  unfold branchCharge
  by_cases hx : (leaseExcess b (scriptOrTrue ctx).length).isSome
  · simp only [hx, if_true] at h ⊢
    cases h
    refine ⟨⟨rfl, rfl, rfl, fun h0 => ?_⟩, rfl, rfl⟩
    simp [projectedSpend, h0]
  · simp only [hx] at h ⊢
    obtain ⟨results, -, h⟩ := Fallible.bind_eq_ok.mp h
    cases h
    refine ⟨⟨rfl, rfl, ?_, fun _ => rfl⟩, rfl, rfl⟩
    dsimp only
    split <;> rfl

/-- The spec of the branch loop. -/
structure BranchesSpec (ctx : NodeContext) (bs : List BranchState) (m : AttemptMeter)
    (attempts : ℕ) (t : Tree) (run : BranchesRun) : Prop where
  branches : List.Forall₂ (fun b b' => if b.status.pending then BranchRun b b' else b' = b) bs
    run.branches
  committed : run.meter.committed = m.committed
  budget : run.meter.budget = m.budget
  toolCalls : run.meter.toolCalls = m.toolCalls + chargedByBranches ctx bs t
  attempts : (∀ b ∈ bs, b.status.pending = true → b.spent.attempts = 0) →
    run.attemptsCharged = attempts + (bs.filter fun b => b.status.pending).length

theorem runBranches_spec {py : Platform} {ctx : NodeContext} {s : RunState}
    {bs : List BranchState} {m : AttemptMeter} {attempts : ℕ} {t : Tree} {run : BranchesRun}
    (h : runBranches py ctx s bs m attempts t = .ok run) :
    BranchesSpec ctx bs m attempts t run := by
  induction bs generalizing m attempts t run with
  | nil =>
    cases h
    exact ⟨.nil, rfl, rfl, rfl, fun _ => rfl⟩
  | cons b bs ih =>
    unfold runBranches at h
    by_cases hp : b.status.pending
    · simp only [hp, if_true] at h
      obtain ⟨⟨b', t'⟩, hb, h⟩ := Fallible.bind_eq_ok.mp h
      obtain ⟨rest, hrest, h⟩ := Fallible.bind_eq_ok.mp h
      cases h
      obtain ⟨hrun, hcalls, htree⟩ := runBranch_spec hb
      have hspec := ih hrest
      refine ⟨?_, hspec.committed, hspec.budget, ?_, ?_⟩
      · exact .cons (by simpa only [hp, if_true] using hrun) hspec.branches
      · have htail := hspec.toolCalls
        dsimp only at htail
        rw [AttemptMeter.charge_toolCalls, hcalls, htree] at htail
        simp only [chargedByBranches, hp, if_true]
        omega
      · intro h0
        have htail := hspec.attempts fun c hc => h0 c (List.mem_cons_of_mem b hc)
        have hone : b'.spent.attempts = 1 := hrun.attempts (h0 b List.mem_cons_self hp)
        dsimp only at htail
        simp only [List.filter_cons, hp, if_true, List.length_cons]
        omega
    · simp only [hp] at h
      obtain ⟨rest, hrest, h⟩ := Fallible.bind_eq_ok.mp h
      cases h
      have hspec := ih hrest
      refine ⟨?_, hspec.committed, hspec.budget, ?_, ?_⟩
      · exact .cons (by simp [hp]) hspec.branches
      · simpa [chargedByBranches, hp] using hspec.toolCalls
      · intro h0
        have htail := hspec.attempts fun c hc => h0 c (List.mem_cons_of_mem b hc)
        simpa [List.filter_cons, hp] using htail

/-- Branches that ran are retired into the parent. -/
def retire (s : RunState) (run : BranchesRun) : RunState :=
  { s with reserved := {}, branches := run.branches }

theorem solveBranches_spec {py : Platform} {ctx : NodeContext} {s : RunState} {t : Tree}
    {o : NodeOutcome} (h : solveBranches py ctx s (s.attemptNo + 1) t = .ok o) :
    ∃ run, runBranches py ctx s s.branches (AttemptMeter.openedRetiring s) 0 t = .ok run ∧
      ClosesAttempt (retire s run) run.attemptsCharged
        (chargedByBranches ctx s.branches t) o := by
  unfold solveBranches at h
  obtain ⟨run, hrun, h⟩ := Fallible.bind_eq_ok.mp h
  have hspec := runBranches_spec hrun
  have hm : run.meter.committed = (retire s run).spent := hspec.committed
  have hcalls : run.meter.toolCalls = chargedByBranches ctx s.branches t := by
    simpa [AttemptMeter.openedRetiring] using hspec.toolCalls
  refine ⟨run, hrun, ?_⟩
  rw [← hcalls]
  dsimp only at h
  split at h
  · cases h
    exact failed_closes hm _ _ _ _ _
  · cases h
    exact completed_closes hm _ _ _ _

/-- The branch path is taken exactly while a branch is dispatched. -/
theorem solvePath_branches_iff (ctx : NodeContext) (s : RunState) :
    solvePath ctx s = .ok .branches ↔
      (s.branches.any fun b => b.status == .dispatched) = true := by
  unfold solvePath
  split
  · rename_i h
    exact ⟨fun _ => h, fun _ => rfl⟩
  · rename_i hnone
    refine ⟨fun h => ?_, fun h => (hnone h).elim⟩
    split at h
    · cases h
    · split at h
      · cases h
      · obtain ⟨resolved, -, hresolved⟩ := Fallible.bind_eq_ok.mp h
        cases resolved with
        | modelRequired => cases hresolved
        | script commands =>
          dsimp only at hresolved
          split at hresolved <;> cases hresolved

/-- The calls that a hop is charged for, for the paths that do not preflight each call. -/
def unmeteredCalls (ctx : NodeContext) (s : RunState) (t : Tree) : SolvePath → Option ℕ
  | .legacy script => some (dispatched ctx 0 script t)
  | .applicator => some (ctx.application t).toolCalls
  | .branches => some (chargedByBranches ctx s.branches t)
  | _ => none

/-- The spec of `solve`. The branch path retires the branches; every other path closes one attempt
over the state as it is, and stays inside the cap if it preflights its calls. -/
theorem solve_spec {py : Platform} {ctx : NodeContext} {s : RunState} {t : Tree}
    {o : NodeOutcome} (h : solve py ctx s t = .ok o) :
    ∃ path, solvePath ctx s = .ok path ∧
      ((path = .branches ∧
        ∃ run, runBranches py ctx s s.branches (AttemptMeter.openedRetiring s) 0 t = .ok run ∧
          ClosesAttempt (retire s run) run.attemptsCharged
            (chargedByBranches ctx s.branches t) o) ∨
      (path ≠ .branches ∧ ∃ n, ClosesAttempt s 1 n o ∧
        (∀ k ∈ unmeteredCalls ctx s t path, n = k) ∧
        (unmeteredCalls ctx s t path = none → s.spent.toolCalls ≤ s.budget.maxToolCalls →
          s.spent.toolCalls + n ≤ s.budget.maxToolCalls))) := by
  unfold solve at h
  obtain ⟨path, hpath, h⟩ := Fallible.bind_eq_ok.mp h
  refine ⟨path, hpath, ?_⟩
  cases path with
  | branches => exact Or.inl ⟨rfl, solveBranches_spec h⟩
  | applicator =>
    cases h
    refine Or.inr ⟨by simp, _, solveViaApplicator_closes ctx s t, ?_, fun hn => by cases hn⟩
    simp [unmeteredCalls]
  | legacy script =>
    cases h
    refine Or.inr ⟨by simp, _, solveLegacyScript_closes ctx s 0 script _ t rfl, ?_,
      fun hn => by cases hn⟩
    simp [unmeteredCalls, AttemptMeter.opened]
  | modelRequired =>
    cases h
    have hm : (AttemptMeter.opened s).committed = s.spent := rfl
    have hclose := failed_closes hm s.transcriptRef (ctx.elapsedS 0) 1
      { source := .solver, detail := modelRequiredDetail, classHint := some .environment } t
    exact Or.inr ⟨by simp, _, hclose, by simp [unmeteredCalls], fun _ hcap => hcap⟩
  | tools script =>
    cases h
    obtain ⟨n, hclose, hn⟩ :=
      solveScriptViaTools_closes ctx s 0 script (AttemptMeter.opened s) t rfl rfl
    exact Or.inr ⟨by simp, n, hclose, by simp [unmeteredCalls], fun _ hcap => hn hcap⟩
  | scratch =>
    cases h
    obtain ⟨n, hclose, hn⟩ := solveScratchObserveAct_closes ctx s (scratchMaxSteps ctx) 0 none
      (AttemptMeter.opened s) t rfl rfl
    exact Or.inr ⟨by simp, n, hclose, by simp [unmeteredCalls], fun _ hcap => hn hcap⟩

end Recertia.Graph
