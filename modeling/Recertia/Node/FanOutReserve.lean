import Recertia.Node.FanOutBudget

/-! The reservation that `fan_out` takes for its branches and `solve_branches` gives back: when the
two agree with what the branches themselves record. -/
namespace Recertia.Graph

open FileTree (Tree)

/-- What a reservation holds in one dimension. -/
def BudgetReservation.amount (r : BudgetReservation) : Dimension → ℚ
  | .attempts => r.attempts
  | .toolCalls => r.toolCalls
  | .tokens => r.tokens
  | .wallClockS => r.wallClockS
  | .costUsd => r.costUsd
  | .versionsWritten => r.versionsWritten

/-- The branches that an outcome of `fan_out` dispatched: none if it refused, or degraded to a
single strategy. -/
def dispatchedBranches (o : NodeOutcome) : List BranchState :=
  if o.route = some .always ∧
      (o.state.strategy = some .portfolio ∨ o.state.strategy = some .decomposition) then
    o.state.branches
  else []

/-- `fan_out` adds in every dimension the sum of what the dispatched branches record, and once
`solve_branches` has settled them, whatever their outcome, the parent holds what it held before. -/
def ReservationsBalance (s : RunState) (result : Except NodeError NodeOutcome) : Prop :=
  ∀ o, result = .ok o →
    (∀ d : Dimension, o.state.reserved.amount d =
      s.reserved.amount d + capTotal (fun b => b.reserved.amount d) (dispatchedBranches o)) ∧
    (dispatchedBranches o ≠ [] → ∀ py ctx' t' o',
      solveBranches py ctx' o.state (o.state.attemptNo + 1) t' = .ok o' →
        o'.state.reserved = s.reserved)

def localCriteria (s : RunState) : List TaskCriterion := s.criteria.filter fun c => c.kind != .judge

/-- The request is admitted and can be split at all. -/
def Dispatches (ctx : NodeContext) (s : RunState) : Prop :=
  FanOutStrategy s ∧ FanOutSound s ∧ Admits ctx s ∧
    (s.strategy = some .decomposition → 2 ≤ branchCount s ∧ 2 ≤ (localCriteria s).length)

/-- There is a branch for every share of the request: a portfolio has a candidate skill unless it
is a single branch, a decomposition has a local criterion for every part. -/
def SharesFilled (s : RunState) : Prop :=
  (s.strategy = some .portfolio → s.budget.maxBranches = 1 ∨ s.bundle.skills ≠ []) ∧
    (s.strategy = some .decomposition → branchCount s ≤ (localCriteria s).length)

theorem roundRobin_ne_nil {α : Type*} {parts : ℕ} {xs : List α} (hle : parts ≤ xs.length) :
    ∀ part ∈ roundRobin parts xs, part ≠ [] := by
  intro part hpart
  obtain ⟨k, hk, rfl⟩ := List.mem_map.mp hpart
  have hk : k < parts := List.mem_range.mp hk
  -- The part of number `k` starts with the element at `k`.
  have hmem : (xs[k], k) ∈ xs.zipIdx.filter fun x => x.2 % parts == k := by
    apply List.mem_filter.mpr
    refine ⟨?_, by simp [Nat.mod_eq_of_lt hk]⟩
    rw [List.mem_zipIdx_iff_getElem?]
    exact List.getElem?_eq_getElem _
  intro hnil
  rw [List.map_eq_nil_iff] at hnil
  rw [hnil] at hmem
  cases hmem

theorem partitionCriteria_few {s : RunState} {n : ℕ} (hn : 1 ≤ n)
    (h : ¬ (2 ≤ n ∧ 2 ≤ (localCriteria s).length)) : partitionCriteria s (some n) = none := by
  have hbound : partBound (some n) = n := if_neg (by omega)
  unfold partitionCriteria
  dsimp only
  rw [hbound]
  apply if_pos
  change (localCriteria s).length < 2 ∨ min n (localCriteria s).length < 2
  omega

/-- Criteria that can be split give a part for every share that has a criterion. -/
theorem partitionCriteria_length {s : RunState} {n : ℕ} (hn : 2 ≤ n)
    (hlocal : 2 ≤ (localCriteria s).length) :
    ∃ owned, partitionCriteria s (some n) = some owned ∧
      owned.length = min n (localCriteria s).length := by
  have hbound : partBound (some n) = n := if_neg (by omega)
  have hfew : ¬ ((localCriteria s).length < 2 ∨ min n (localCriteria s).length < 2) := by omega
  have hle : min n (localCriteria s).length ≤ ((localCriteria s).map fun c => c.id).length := by
    rw [List.length_map]
    exact Nat.min_le_right _ _
  unfold partitionCriteria
  dsimp only
  rw [hbound]
  refine ⟨_, if_neg hfew, ?_⟩
  rw [List.length_map, List.filter_eq_self.mpr]
  · rw [List.length_zipIdx, roundRobin, List.length_map, List.length_range]
    rfl
  · intro part hpart
    apply decide_eq_true
    exact roundRobin_ne_nil hle part.1 (List.fst_mem_of_mem_zipIdx hpart)

/-- A dispatched decomposition has its parts. -/
theorem Dispatches.owned {ctx : NodeContext} {s : RunState} (h : Dispatches ctx s)
    (hportfolio : s.strategy ≠ some .portfolio) :
    ∃ owned, partitionCriteria s (some (branchCount s)) = some owned ∧
      owned.length = min (branchCount s) (localCriteria s).length ∧
      2 ≤ branchCount s ∧ 2 ≤ (localCriteria s).length := by
  have hd : s.strategy = some .decomposition := h.1.resolve_left hportfolio
  have hsplit := h.2.2.2 hd
  obtain ⟨owned, howned, hlen⟩ := partitionCriteria_length hsplit.1 hsplit.2
  exact ⟨owned, howned, hlen, hsplit⟩

theorem plannedCount_pos_of_dispatches {ctx : NodeContext} {s : RunState}
    (h : Dispatches ctx s) : 1 ≤ plannedCount s := by
  unfold plannedCount
  by_cases hportfolio : s.strategy = some .portfolio
  · rw [if_pos hportfolio]
    omega
  · obtain ⟨owned, howned, hlen, hcount, hlocal⟩ := h.owned hportfolio
    rw [if_neg hportfolio, howned, Option.getD_some, hlen]
    omega

theorem plannedCount_eq_iff {ctx : NodeContext} {s : RunState} (h : Dispatches ctx s) :
    plannedCount s = branchCount s ↔ SharesFilled s := by
  have hn : 1 ≤ branchCount s := one_le_branchCount s
  by_cases hp : s.strategy = some .portfolio
  · have hdesired : desiredBranches s = s.bundle.skills.length := if_pos hp
    have hbranch : branchCount s = min s.budget.maxBranches (max 2 s.bundle.skills.length) := by
      rw [branchCount, hdesired]
    have hmax : 1 ≤ s.budget.maxBranches := s.budget.valid.branches.1
    have hempty : s.bundle.skills ≠ [] ↔ 1 ≤ s.bundle.skills.length := by
      rw [Nat.one_le_iff_ne_zero, Ne, Ne, List.length_eq_zero_iff]
    unfold plannedCount SharesFilled
    simp only [hp, if_true, true_implies, hempty, reduceCtorEq, Option.some.injEq, false_implies,
      and_true]
    omega
  · obtain ⟨owned, howned, hlen, -⟩ := h.owned hp
    unfold plannedCount SharesFilled
    rw [if_neg hp, howned, Option.getD_some, hlen]
    constructor
    · intro heq
      exact ⟨fun hportfolio => absurd hportfolio hp, fun _ => by omega⟩
    · intro hfill
      have hle := hfill.2 (h.1.resolve_left hp)
      omega

/-- What an admitted request records: the parent takes the whole request, each branch its share. -/
theorem fanOutAdmitted_reserved {ctx : NodeContext} {s : RunState} (t : Tree) (child : Budget)
    (perBranch requested : BudgetReservation) (h : Dispatches ctx s) :
    (fanOutAdmitted s t child perBranch requested).state.reserved = s.reserved.plus requested ∧
      (fanOutAdmitted s t child perBranch requested).state.strategy = s.strategy ∧
      ∀ b ∈ (fanOutAdmitted s t child perBranch requested).state.branches,
        b.reserved = perBranch ∧ b.status = .dispatched := by
  unfold fanOutAdmitted
  dsimp only
  split
  · refine ⟨rfl, rfl, fun b hb => ?_⟩
    obtain ⟨hstatus, -, hreserved⟩ := portfolioBranches_fresh _ _ _ _ b hb
    exact ⟨hreserved, hstatus⟩
  · rename_i hportfolio
    -- A request that can be split does not degrade.
    obtain ⟨owned, howned, -⟩ := h.owned hportfolio
    rw [howned]
    refine ⟨rfl, rfl, fun b hb => ?_⟩
    obtain ⟨hstatus, -, hreserved⟩ := decompositionBranches_fresh _ _ _ _ b hb
    exact ⟨hreserved, hstatus⟩

theorem dispatchedBranches_admitted {ctx : NodeContext} {s : RunState} (t : Tree) (child : Budget)
    (perBranch requested : BudgetReservation) (h : Dispatches ctx s) :
    dispatchedBranches (fanOutAdmitted s t child perBranch requested) =
      (fanOutAdmitted s t child perBranch requested).state.branches := by
  have hstrategy := (fanOutAdmitted_reserved t child perBranch requested h).2.1
  apply if_pos
  refine ⟨(fanOutAdmitted_materialised s t child perBranch requested).route, ?_⟩
  rw [hstrategy]
  exact h.1

/-- Criteria that cannot be split: the request degrades to scratch. -/
theorem fanOutAdmitted_degraded {s : RunState} (t : Tree) (child : Budget)
    (perBranch requested : BudgetReservation)
    (h : ¬ (s.strategy = some .decomposition → 2 ≤ branchCount s ∧ 2 ≤ (localCriteria s).length)) :
    fanOutAdmitted s t child perBranch requested =
      { state := { s with strategy := some .scratch, branches := [] }
        route := some .always
        workdir := t } := by
  obtain ⟨hd, hfew⟩ := Classical.not_imp.mp h
  have hportfolio : s.strategy ≠ some .portfolio := by
    rw [hd]
    decide
  unfold fanOutAdmitted
  dsimp only
  rw [if_neg hportfolio, partitionCriteria_few (one_le_branchCount s) hfew]

/-- `fan_out` dispatches, or it ends without a branch and without a reservation. -/
theorem fanOut_cases (ctx : NodeContext) (s : RunState) (t : Tree) :
    (Dispatches ctx s ∧ ∃ child, fanOut ctx s t =
      .ok (fanOutAdmitted s t child (requestedPerBranch ctx (childBudget s.budget (branchCount s)))
        ((requestedPerBranch ctx (childBudget s.budget (branchCount s))).scale
          (branchCount s)))) ∨
    (¬ Dispatches ctx s ∧ ∀ o, fanOut ctx s t = .ok o →
      dispatchedBranches o = [] ∧ o.state.reserved = s.reserved) := by
  have hvalid := childBudget_valid_iff s.budget (one_le_branchCount s)
  by_cases hstrategy : FanOutStrategy s
  · have hnot : ¬ (s.strategy ≠ some .portfolio ∧ s.strategy ≠ some .decomposition) :=
      fun h => (not_or.mpr h) hstrategy
    unfold fanOut
    rw [if_neg hnot]
    dsimp only
    -- `Budget(...)` raises where the share of a branch is out of its bounds.
    by_cases hlease : (childBudget s.budget (branchCount s)).Valid
    · have hsound : FanOutSound s := fun _ => hvalid.mp hlease
      rw [dif_pos hlease]
      split
      · rename_i exhausted hexcess
        have hrefuse : ¬ Admits ctx s :=
          fun hadmits => Option.some_ne_none _ (hexcess.symm.trans hadmits)
        refine Or.inr ⟨fun h => hrefuse h.2.2.1, fun o ho => ?_⟩
        obtain rfl := Except.ok.inj ho
        exact ⟨if_neg fun h => (by cases h.1), rfl⟩
      · rename_i hfits
        -- A decomposition that cannot be split degrades to one strategy.
        by_cases hsplit : s.strategy = some .decomposition →
            2 ≤ branchCount s ∧ 2 ≤ (localCriteria s).length
        · exact Or.inl ⟨⟨hstrategy, hsound, hfits, hsplit⟩, _, rfl⟩
        · refine Or.inr ⟨fun h => hsplit h.2.2.2, fun o ho => ?_⟩
          rw [fanOutAdmitted_degraded t _ _ _ hsplit] at ho
          obtain rfl := Except.ok.inj ho
          exact ⟨ite_self _, rfl⟩
    · rw [dif_neg hlease]
      refine Or.inr ⟨fun h => hlease (hvalid.mpr (h.2.1 hstrategy)), fun o ho => ?_⟩
      cases ho
  · refine Or.inr ⟨fun h => hstrategy h.1, fun o ho => ?_⟩
    have hsingle : fanOut ctx s t = .ok { state := s, route := some .always, workdir := t } :=
      if_pos (not_or.mp hstrategy)
    rw [hsingle] at ho
    obtain rfl := Except.ok.inj ho
    exact ⟨if_neg fun h => hstrategy h.2, rfl⟩

theorem capTotal_dispatched {o : NodeOutcome} {r : BudgetReservation}
    (h : ∀ b ∈ o.state.branches, b.reserved = r) (d : Dimension) :
    capTotal (fun b => b.reserved.amount d) o.state.branches =
      o.state.branches.length * r.amount d := by
  apply capTotal_eq_mul
  intro b hb
  rw [h b hb]

/-- Shares add up to a scaled request exactly when there is one for every share. -/
theorem plus_scale_amount_iff {r q : BudgetReservation} {n count : ℕ} (hone : q.attempts = 1)
    (hversions : q.versionsWritten = 0) :
    (∀ d : Dimension, (r.plus (q.scale n)).amount d = r.amount d + count * q.amount d) ↔
      count = n ∧ r.versionsWritten = 0 := by
  constructor
  · intro h
    have hattempts := h .attempts
    have hwritten := h .versionsWritten
    simp only [BudgetReservation.amount, BudgetReservation.plus, BudgetReservation.scale, hone,
      hversions] at hattempts hwritten
    push_cast at hattempts hwritten
    constructor
    · have heq : (count : ℚ) = n := by linarith
      exact_mod_cast heq
    · have heq : (r.versionsWritten : ℚ) = 0 := by linarith
      exact_mod_cast heq
  · rintro ⟨rfl, hr⟩ d
    cases d <;>
      simp [BudgetReservation.amount, BudgetReservation.plus, BudgetReservation.scale, hversions,
        hr, mul_comm]

/-- What `solve_branches` leaves of the reservation of the parent. -/
theorem solveBranches_reserved {py : Platform} {ctx : NodeContext} {s : RunState} {t : Tree}
    {o : NodeOutcome} (h : solveBranches py ctx s (s.attemptNo + 1) t = .ok o) :
    o.state.reserved = {} := by
  obtain ⟨run, -, hclose⟩ := solveBranches_spec h
  obtain ⟨spent, ref, signal, hstate⟩ := hclose.state
  rw [hstate]
  rfl

/-- Commands that exit and a verifier of its own: every criterion is scored. -/
theorem scoreAll_answered (py : Platform) (t : Tree) (cs : List TaskCriterion) :
    ∃ rs, scoreAll py { verifierModel := true } t cs = .ok rs := by
  induction cs with
  | nil => exact ⟨[], rfl⟩
  | cons c cs ih =>
    obtain ⟨rs, hrs⟩ := ih
    have hr : ∃ r, scoreCriterion py { verifierModel := true } t c = .ok r := by
      unfold scoreCriterion
      split
      · exact ⟨_, rfl⟩
      · exact ⟨_, rfl⟩
      · exact ⟨_, rfl⟩
    obtain ⟨r, hr⟩ := hr
    exact ⟨r :: rs, Fallible.bind_eq_ok.mpr ⟨r, hr, Fallible.bind_eq_ok.mpr ⟨rs, hrs, rfl⟩⟩⟩

theorem runBranches_answered (py : Platform) (s : RunState) (bs : List BranchState)
    (m : AttemptMeter) (attempts : ℕ) (t : Tree) :
    ∃ run, runBranches py { verifierModel := true } s bs m attempts t = .ok run := by
  induction bs generalizing m attempts t with
  | nil => exact ⟨_, rfl⟩
  | cons b bs ih =>
    unfold runBranches
    split
    · have hb : ∃ r, runBranch py { verifierModel := true } s b t = .ok r := by
        unfold runBranch
        dsimp only
        split
        · exact ⟨_, rfl⟩
        · rw [Fallible.bind_isOk]
          unfold branchResults
          split
          · obtain ⟨rs, hrs⟩ := scoreAll_answered py _ _
            exact ⟨rs, hrs, _, rfl⟩
          · exact ⟨_, rfl, _, rfl⟩
      obtain ⟨⟨b', t'⟩, hb'⟩ := hb
      obtain ⟨rest, hrest⟩ := ih (m.charge b'.spent.toolCalls b'.spent.tokens b'.spent.costUsd)
        (attempts + b'.spent.attempts) t'
      rw [Fallible.bind_isOk]
      exact ⟨_, hb', Fallible.bind_isOk.mpr ⟨rest, hrest, _, rfl⟩⟩
    · obtain ⟨rest, hrest⟩ := ih m attempts t
      exact Fallible.bind_isOk.mpr ⟨rest, hrest, _, rfl⟩

theorem solveBranches_settles (py : Platform) (s : RunState) (t : Tree) :
    ∃ o, solveBranches py { verifierModel := true } s (s.attemptNo + 1) t = .ok o := by
  obtain ⟨run, hrun⟩ := runBranches_answered py s s.branches (AttemptMeter.openedRetiring s) 0 t
  unfold solveBranches
  rw [Fallible.bind_isOk]
  refine ⟨run, hrun, ?_⟩
  dsimp only
  split
  · exact ⟨_, rfl⟩
  · exact ⟨_, rfl⟩

/-- A dispatched request balances exactly when it fills its shares and nothing was reserved. -/
theorem balance_of_dispatch {ctx : NodeContext} {s : RunState} (t : Tree)
    (child : Budget) {q : BudgetReservation} (hone : q.attempts = 1)
    (hversions : q.versionsWritten = 0) (h : Dispatches ctx s) :
    ReservationsBalance s (.ok (fanOutAdmitted s t child q (q.scale (branchCount s)))) ↔
      SharesFilled s ∧ s.reserved = {} := by
  set o := fanOutAdmitted s t child q (q.scale (branchCount s)) with ho
  obtain ⟨hreserved, -, hbranches⟩ :=
    fanOutAdmitted_reserved t child q (q.scale (branchCount s)) h
  rw [← ho] at hreserved hbranches
  have hmade := fanOutAdmitted_materialised s t child q (q.scale (branchCount s))
  rw [← ho] at hmade
  have hdispatched : dispatchedBranches o = o.state.branches :=
    dispatchedBranches_admitted t child q (q.scale (branchCount s)) h
  have hnonempty : dispatchedBranches o ≠ [] := by
    have hpos := plannedCount_pos_of_dispatches h
    rw [← hmade.count] at hpos
    rw [hdispatched]
    exact List.ne_nil_of_length_pos hpos
  -- The reservation is a multiple of the share, so the sum agrees where the counts do.
  have hsum : (∀ d : Dimension, o.state.reserved.amount d =
      s.reserved.amount d + capTotal (fun b => b.reserved.amount d) (dispatchedBranches o)) ↔
      plannedCount s = branchCount s ∧ s.reserved.versionsWritten = 0 := by
    rw [← plus_scale_amount_iff hone hversions, hreserved, hdispatched]
    apply forall_congr'
    intro d
    rw [capTotal_dispatched (fun b hb => (hbranches b hb).1) d, hmade.count]
  rw [← plannedCount_eq_iff h]
  constructor
  · intro hbalance
    obtain ⟨hadded, hsettled⟩ := hbalance o rfl
    refine ⟨(hsum.mp hadded).1, ?_⟩
    obtain ⟨o', ho'⟩ := solveBranches_settles ⟨id, Char.isAlpha, fun c _ => c.id⟩ o.state t
    rw [← hsettled hnonempty _ _ t o' ho']
    exact solveBranches_reserved ho'
  · rintro ⟨hcount, hzero⟩ o' ho'
    obtain rfl : o = o' := Except.ok.inj ho'
    refine ⟨hsum.mpr ⟨hcount, by rw [hzero]⟩, fun _ py ctx' t' o' ho' => ?_⟩
    rw [solveBranches_reserved ho', hzero]

/-- The reservations balance exactly when a request that is dispatched fills all its shares and
finds nothing reserved before. -/
theorem reservations_balance_iff (ctx : NodeContext) (s : RunState) (t : Tree) :
    ReservationsBalance s (fanOut ctx s t) ↔
      (Dispatches ctx s → SharesFilled s ∧ s.reserved = {}) := by
  rcases fanOut_cases ctx s t with ⟨h, child, ho⟩ | ⟨hnone, hquiet⟩
  · rw [ho, balance_of_dispatch t child rfl rfl h]
    exact ⟨fun hfill _ => hfill, fun hfill => hfill h⟩
  · refine ⟨fun _ h => absurd h hnone, fun _ o ho => ?_⟩
    obtain ⟨hempty, hreserved⟩ := hquiet o ho
    refine ⟨fun d => ?_, fun hsome => absurd hempty hsome⟩
    rw [hempty, hreserved, capTotal, add_zero]

/-- A portfolio run for which no skill was retrieved. -/
def skilllessPortfolio : RunState where
  runId := "run-1"
  task :=
    { request := some "rename it"
      requireGoalOrRequest := Or.inr ⟨"rename it", rfl, by decide +kernel⟩ }
  strategy := some .portfolio
  budget := default

theorem skilllessPortfolio_dispatches : Dispatches {} skilllessPortfolio := by
  refine ⟨Or.inl rfl, fun _ k hk => (by cases hk), ?_, fun h => (by cases h)⟩
  unfold Admits
  decide +kernel

/-- Two attempts are reserved for the one scratch branch. -/
theorem not_reservations_balance_skillless :
    ¬ ReservationsBalance skilllessPortfolio (fanOut {} skilllessPortfolio ∅) := by
  intro h
  have hd := skilllessPortfolio_dispatches
  rcases fanOut_cases {} skilllessPortfolio ∅ with ⟨-, child, ho⟩ | ⟨hnone, -⟩
  · rw [ho, balance_of_dispatch ∅ child rfl rfl hd] at h
    rcases h.1.1 rfl with hone | hskills
    · revert hone
      decide
    · exact hskills rfl
  · exact hnone hd

end Recertia.Graph
