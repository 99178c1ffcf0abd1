import Recertia.Engine.Frame

/-! What every checkpoint keeps about the attempts: branches are pending only between their
dispatch and the first attempt, and an attempt starts only where the budget has room for it. -/
namespace Recertia.Graph

open FileTree (Tree)

/-- A hop that was checkpointed. -/
structure Committed (py : Platform) (ctx : NodeContext) (w : World) (o : NodeOutcome)
    (r : Route) : Prop where
  node : w.node ≠ .finalize
  outcome : nodeFuncs py ctx w.node w.snapshots w.state w.workdir = .ok o
  chosen : Chosen w.node o r

/-- The invariant rule of the engine: a step keeps what commits and `finalize` keep. -/
theorem checkpoint_step {py : Platform} (I : Node → RunState → SnapshotStore → Prop)
    (hcommit : ∀ ctx w o r, I w.node w.state w.snapshots → Committed py ctx w o r →
      o.state.spent.versionsWritten ≤ o.state.budget.maxVersionsWritten →
      I r.target (commitHop ctx w o r).state (commitHop ctx w o r).snapshots)
    (hfinal : ∀ s t snapshots, I .finalize s snapshots →
      I .finalize (finalize s t).state snapshots)
    {w w' : World} {l : Label} (hw : I w.node w.state w.snapshots)
    (h : (engine py).step w l = some w') : I w'.node w'.state w'.snapshots := by
  rcases step_cases h with ⟨workdir, -, -, -, rfl⟩ | ⟨ctx, e, -, -, rfl⟩ |
    ⟨ctx, -, -, hnode, rfl⟩ | ⟨ctx, o, r, -, -, hnode, ho, hversions, hr, rfl⟩
  · exact hw
  · exact hw
  · have hw' : I .finalize w.state w.snapshots := by simpa only [hnode] using hw
    have hkeep := hfinal w.state w.workdir w.snapshots hw'
    simpa only [hnode] using hkeep
  · exact hcommit ctx w o r hw ⟨hnode, ho, hr⟩ hversions

/-- The nodes before the first attempt. -/
def isEarly : Node → Bool
  | .intake => true
  | .retrieve => true
  | .plan => true
  | .fanOut => true
  | _ => false

/-- A state in which nothing was dispatched. -/
structure Unstarted (s : RunState) : Prop where
  attempts : s.spent.attempts = 0
  branches : s.branches = []
  attemptNo : s.attemptNo = 0
  audits : s.mergeAudits = []
  noSignal : s.failureSignal = none

def pendingBranches (s : RunState) : List BranchState :=
  s.branches.filter fun b => b.status.pending

/-- The part of the run invariant that bounds the attempts. -/
structure Progress (node : Node) (s : RunState) : Prop where
  unstarted : isEarly node = true → Unstarted s
  fresh : ∀ b ∈ pendingBranches s, b.status = .dispatched ∧ b.spent = {}
  first : pendingBranches s ≠ [] → node = .solve ∧ s.attemptNo = 0 ∧ s.mergeAudits = []
  attempts : s.spent.attempts ≤ s.budget.maxAttempts
  room : node = .solve ∨ node = .evolve →
    s.spent.attempts + max 1 (pendingBranches s).length ≤ s.budget.maxAttempts

theorem Progress.of_unstarted {s : RunState} (h : Unstarted s) (node : Node) :
    Progress node s := by
  have hpending : pendingBranches s = [] := by simp [pendingBranches, h.branches]
  have hone : 1 ≤ s.budget.maxAttempts := s.budget.valid.attempts
  refine ⟨fun _ => h, ?_, ?_, ?_, ?_⟩
  · intro b hb
    simp [hpending] at hb
  · intro hne
    exact (hne hpending).elim
  · rw [h.attempts]
    exact Nat.zero_le _
  · intro _
    rw [h.attempts, hpending]
    simpa using hone

/-- Without pending branches only the attempt counter matters. -/
theorem Progress.of_noPending {node : Node} {s : RunState} (hnode : isEarly node = false)
    (hpending : pendingBranches s = [])
    (hattempts : s.spent.attempts ≤ s.budget.maxAttempts)
    (hroom : node = .solve ∨ node = .evolve → s.spent.attempts < s.budget.maxAttempts) :
    Progress node s := by
  refine ⟨?_, ?_, ?_, hattempts, ?_⟩
  · intro he
    rw [hnode] at he
    cases he
  · intro b hb
    simp [hpending] at hb
  · intro hne
    exact (hne hpending).elim
  · intro hn
    have hlt := hroom hn
    simp only [hpending, List.length_nil]
    omega

/-- A commit changes nothing that `Progress` is about. -/
theorem Progress.commit {ctx : NodeContext} {w : World} {o : NodeOutcome} {r : Route}
    (h : Progress r.target o.state) : Progress r.target (commitHop ctx w o r).state := by
  obtain ⟨snapshots, hstate⟩ := commitHop_state ctx w o r
  rw [hstate]
  refine ⟨fun he => ?_, h.fresh, h.first, h.attempts, h.room⟩
  have hu := h.unstarted he
  exact ⟨hu.attempts, hu.branches, hu.attemptNo, hu.audits, hu.noSignal⟩

theorem source_of_target_early : ∀ r ∈ routes, isEarly r.target = true →
    r.source = .intake ∨ r.source = .retrieve ∨ r.source = .plan := by decide

theorem source_of_target_solve : ∀ r ∈ routes, r.target = .solve →
    r.source = .plan ∨ r.source = .fanOut ∨ r.source = .evolve := by decide

theorem source_of_target_evolve : ∀ r ∈ routes, r.target = .evolve →
    r.source = .classifyFailure ∧ r.predicateName = .retry := by decide

theorem predicate_of_target_evolve (r : Route) (hr : r ∈ routes) (ht : r.target = .evolve) :
    r.predicate = budgetRemainsWithProgress := by
  simp only [routes, List.mem_cons, List.not_mem_nil, or_false] at hr
  rcases hr with rfl | rfl | rfl | rfl | rfl | rfl | rfl | rfl | rfl | rfl | rfl | rfl | rfl |
    rfl | rfl | rfl | rfl | rfl | rfl | rfl | rfl | rfl | rfl | rfl <;>
    first | rfl | exact absurd ht (by decide)

theorem attempts_lt_of_budgetRemains {s : RunState} (h : budgetRemainsWithProgress s = true) :
    s.spent.attempts < s.budget.maxAttempts := by
  unfold budgetRemainsWithProgress at h
  split at h
  · cases h
  · simp only [Bool.and_eq_true, decide_eq_true_eq] at h
    exact h.1.2

/-- The retry route is taken only while attempts remain. -/
theorem attempts_lt_of_retry {py : Platform} {ctx : NodeContext} {w : World} {o : NodeOutcome}
    {r : Route} (h : Committed py ctx w o r) (ht : r.target = .evolve) :
    w.state.spent.attempts < w.state.budget.maxAttempts := by
  have hsource := (source_of_target_evolve r h.chosen.mem ht).1
  have hnode : w.node = .classifyFailure := h.chosen.source.symm.trans hsource
  have hframe := nodeFuncs_frame h.outcome
  have hpred := h.chosen.predicate
  rw [predicate_of_target_evolve r h.chosen.mem ht] at hpred
  have hlt := attempts_lt_of_budgetRemains hpred
  rwa [hframe.attempts (by rw [hnode]; decide), hframe.budget] at hlt

/-- `intake`, `retrieve` and `plan` dispatch nothing. -/
theorem unstarted_of_prepare {py : Platform} {ctx : NodeContext} {node : Node}
    {snapshots : SnapshotStore} {s : RunState} {t : Tree} {o : NodeOutcome}
    (hnode : node = .intake ∨ node = .retrieve ∨ node = .plan)
    (h : nodeFuncs py ctx node snapshots s t = .ok o) (hs : Unstarted s) :
    Unstarted o.state := by
  rcases hnode with rfl | rfl | rfl
  · obtain ⟨criteria, -, rfl⟩ := intake_spec h
    exact ⟨hs.attempts, hs.branches, hs.attemptNo, hs.audits, hs.noSignal⟩
  · cases h
    exact ⟨hs.attempts, hs.branches, hs.attemptNo, hs.audits, hs.noSignal⟩
  · cases h
    obtain ⟨strategy, chosen, guide, hstate⟩ := (planState_planned ctx s).state
    have hplan : (plan ctx s t).state = { s with strategy, chosen, executionGuide := guide } :=
      hstate
    rw [hplan]
    exact ⟨hs.attempts, hs.branches, hs.attemptNo, hs.audits, hs.noSignal⟩

/-- Dispatched branches are all pending, and the parent has room for them. -/
theorem progress_of_dispatch {ctx : NodeContext} {s : RunState} {t : Tree}
    {branches : List BranchState} {requested : BudgetReservation} (hs : Unstarted s)
    (h : Dispatched ctx s branches) :
    Progress .solve (dispatchBranches s t branches requested).state := by
  have hpending : pendingBranches (dispatchBranches s t branches requested).state = branches := by
    apply List.filter_eq_self.mpr
    intro b hb
    rw [(h.fresh b hb).1]
    rfl
  have hroom : s.spent.attempts + branches.length ≤ s.budget.maxAttempts := h.attempts
  have hone : 1 ≤ s.budget.maxAttempts := s.budget.valid.attempts
  refine ⟨fun he => (by cases he), ?_, fun _ => ⟨rfl, hs.attemptNo, hs.audits⟩, ?_, ?_⟩
  · intro b hb
    rw [hpending] at hb
    exact ⟨(h.fresh b hb).1, (h.fresh b hb).2.1⟩
  · show s.spent.attempts ≤ s.budget.maxAttempts
    omega
  · intro _
    rw [hpending]
    show s.spent.attempts + max 1 branches.length ≤ s.budget.maxAttempts
    have hzero := hs.attempts
    omega

theorem targets_of_fanOut : ∀ r ∈ routes, r.source = .fanOut →
    (r.predicateName = .preDispatchBudgetFailure → r.target = .classifyFailure) ∧
    (r.predicateName = .always → r.target = .solve) := by decide

theorem progress_of_fanOut {ctx : NodeContext} {s : RunState} {t : Tree} {o : NodeOutcome}
    {r : Route} (h : fanOut ctx s t = .ok o) (hr : Chosen .fanOut o r) (hs : Unstarted s) :
    Progress r.target o.state := by
  have htarget := targets_of_fanOut r hr.mem hr.source
  rcases fanOut_spec h with ⟨-, hstate | hstate⟩ | ⟨exhausted, rfl⟩ |
    ⟨branches, requested, hdispatched, rfl⟩
  · rw [hstate]
    exact Progress.of_unstarted hs _
  · have hdegraded : Unstarted { s with strategy := some .scratch, branches := [] } :=
      ⟨hs.attempts, rfl, hs.attemptNo, hs.audits, hs.noSignal⟩
    rw [hstate]
    exact Progress.of_unstarted hdegraded _
  · have hname : r.predicateName = .preDispatchBudgetFailure := by
      have hroute := hr.name
      simp only [refuseFanOut, Option.some.injEq] at hroute
      exact hroute.symm
    rw [htarget.1 hname]
    apply Progress.of_noPending rfl
    · simp [pendingBranches, refuseFanOut, hs.branches]
    · simp [refuseFanOut, hs.attempts]
    · rintro (hn | hn) <;> cases hn
  · have hname : r.predicateName = .always := by
      have hroute := hr.name
      simp only [dispatchBranches, Option.some.injEq] at hroute
      exact hroute.symm
    rw [htarget.2 hname]
    exact progress_of_dispatch hs hdispatched

/-- After the branch loop nothing is pending. -/
theorem pendingBranches_retire {py : Platform} {ctx : NodeContext} {s : RunState}
    {m : AttemptMeter} {t : Tree} {run : BranchesRun}
    (h : runBranches py ctx s s.branches m 0 t = .ok run) :
    pendingBranches (retire s run) = [] := by
  have hspec := (runBranches_spec h).branches
  apply List.filter_eq_nil_iff.mpr
  show ∀ b ∈ run.branches, ¬ b.status.pending = true
  generalize s.branches = bs at hspec
  generalize run.branches = bs' at hspec
  induction hspec with
  | nil => intro b hb; cases hb
  | @cons b b' bs bs' hb _ ih =>
    rw [List.forall_mem_cons]
    refine ⟨?_, ih⟩
    by_cases hp : b.status.pending = true
    · rw [if_pos hp] at hb
      simp [hb.notPending]
    · rw [if_neg hp] at hb
      rw [hb]
      exact hp

/-- The branch path is taken exactly while a branch is pending. -/
theorem solvePath_eq_branches_iff {ctx : NodeContext} {s : RunState} {path : SolvePath}
    (hpath : solvePath ctx s = .ok path)
    (hfresh : ∀ b ∈ pendingBranches s, b.status = .dispatched ∧ b.spent = {}) :
    path = .branches ↔ pendingBranches s ≠ [] := by
  have hany : (s.branches.any fun b => b.status == .dispatched) = true ↔
      pendingBranches s ≠ [] := by
    rw [List.any_eq_true]
    constructor
    · rintro ⟨b, hb, hstatus⟩ hnil
      have hdispatched : b.status = .dispatched := by simpa using hstatus
      have hmem : b ∈ pendingBranches s :=
        List.mem_filter.mpr ⟨hb, by rw [hdispatched]; rfl⟩
      rw [hnil] at hmem
      cases hmem
    · intro hne
      obtain ⟨b, hb⟩ := List.exists_mem_of_ne_nil _ hne
      exact ⟨b, (List.mem_filter.mp hb).1, by simp [(hfresh b hb).1]⟩
  rw [← hany, ← solvePath_branches_iff ctx s, hpath]
  exact ⟨fun h => congrArg Except.ok h, fun h => Except.ok.inj h⟩

/-- What one attempt does to the attempt counter: it charges each pending branch, or one. -/
structure Attempted (s : RunState) (o : NodeOutcome) : Prop where
  attempts : o.state.spent.attempts = s.spent.attempts + max 1 (pendingBranches s).length
  noPending : pendingBranches o.state = []
  kept : pendingBranches s = [] → o.state.branches = s.branches

/-- Every solve hop charges at least one attempt, and never more than there is room for. -/
theorem solve_attempted {py : Platform} {ctx : NodeContext} {s : RunState} {t : Tree}
    {o : NodeOutcome} (h : solve py ctx s t = .ok o)
    (hfresh : ∀ b ∈ pendingBranches s, b.status = .dispatched ∧ b.spent = {}) :
    Attempted s o := by
  obtain ⟨path, hpath, ⟨hp, run, hrun, hclose⟩ | ⟨hp, n, hclose, -⟩⟩ := solve_spec h
  · have hne : pendingBranches s ≠ [] := (solvePath_eq_branches_iff hpath hfresh).mp hp
    have hlen : 0 < (pendingBranches s).length := List.length_pos_iff.mpr hne
    have hcharged : run.attemptsCharged = 0 + (pendingBranches s).length := by
      apply (runBranches_spec hrun).attempts
      intro b hb hpending
      rw [(hfresh b (List.mem_filter.mpr ⟨hb, hpending⟩)).2]
    obtain ⟨spent, ref, signal, hstate⟩ := hclose.state
    refine ⟨?_, ?_, fun hnil => (hne hnil).elim⟩
    · have hattempts := hclose.attempts
      simp only [retire] at hattempts
      omega
    · have hretired := pendingBranches_retire hrun
      rw [hstate]
      exact hretired
  · have hnil : pendingBranches s = [] := by
      by_contra hne
      exact hp ((solvePath_eq_branches_iff hpath hfresh).mpr hne)
    obtain ⟨spent, ref, signal, hstate⟩ := hclose.state
    refine ⟨?_, ?_, fun _ => by rw [hstate]⟩
    · rw [hclose.attempts, hnil]
      rfl
    · rw [hstate]
      exact hnil

/-- Selecting a winner keeps what the branches recorded. -/
theorem mem_markSelected {winner : Option BranchState} {branches : List BranchState}
    {b : BranchState} (h : b ∈ markSelected winner branches) :
    ∃ c ∈ branches, ∃ selected, b = { c with selected } := by
  unfold markSelected at h
  split at h
  · exact ⟨b, h, b.selected, rfl⟩
  · obtain ⟨c, hc, rfl⟩ := List.mem_map.mp h
    exact ⟨c, hc, _, rfl⟩

theorem pendingBranches_join {py : Platform} {ctx : NodeContext} {s : RunState} {t : Tree}
    {o : NodeOutcome} (h : join py ctx s t = .ok o) (hs : pendingBranches s = []) :
    pendingBranches o.state = [] := by
  rcases join_spec h with ⟨-, rfl⟩ | ⟨-, -, signal, rfl⟩ | ⟨-, _, _, winner, _, -, -, -, rfl⟩
  · exact hs
  · exact hs
  · apply List.filter_eq_nil_iff.mpr
    intro b hb
    obtain ⟨c, hc, selected, rfl⟩ := mem_markSelected hb
    exact List.filter_eq_nil_iff.mp hs c hc

/-- After dispatch only `solve` touches what is pending. -/
theorem pendingBranches_kept {py : Platform} {ctx : NodeContext} {node : Node}
    {snapshots : SnapshotStore} {s : RunState} {t : Tree} {o : NodeOutcome}
    (h : nodeFuncs py ctx node snapshots s t = .ok o) (hsolve : node ≠ .solve)
    (hfanOut : node ≠ .fanOut) (hs : pendingBranches s = []) : pendingBranches o.state = [] := by
  by_cases hjoin : node = .join
  · subst hjoin
    exact pendingBranches_join h hs
  · have hbranches := (nodeFuncs_frame h).branches hfanOut hsolve hjoin
    unfold pendingBranches at hs ⊢
    rw [hbranches]
    exact hs

theorem noPending_of_not_solve {node : Node} {s : RunState} (h : Progress node s)
    (hnode : node ≠ .solve) : pendingBranches s = [] := by
  by_contra hne
  exact hnode (h.first hne).1

theorem progress_of_solve {py : Platform} {ctx : NodeContext} {s : RunState} {t : Tree}
    {o : NodeOutcome} {r : Route} (h : solve py ctx s t = .ok o) (hr : Chosen .solve o r)
    (hs : Progress .solve s) : Progress r.target o.state := by
  have hattempted := solve_attempted h hs.fresh
  have hbudget : o.state.budget = s.budget := (solve_frame h).budget
  have hroom := hs.room (Or.inl rfl)
  apply Progress.of_noPending
  · by_contra he
    rcases source_of_target_early r hr.mem (by simpa using he) with hsource | hsource | hsource <;>
      rw [hr.source] at hsource <;> cases hsource
  · exact hattempted.noPending
  · rw [hattempted.attempts, hbudget]
    exact hroom
  · rintro (ht | ht)
    · rcases source_of_target_solve r hr.mem ht with hsource | hsource | hsource <;>
        rw [hr.source] at hsource <;> cases hsource
    · have hsource := (source_of_target_evolve r hr.mem ht).1
      rw [hr.source] at hsource
      cases hsource

/-- A commit behind the first attempt keeps the counters; the way back to `solve` leads through the
retry route, which asks for a remaining attempt. -/
theorem progress_of_later {py : Platform} {ctx : NodeContext} {w : World} {o : NodeOutcome}
    {r : Route} (h : Committed py ctx w o r) (hearly : isEarly w.node = false)
    (hsolve : w.node ≠ .solve) (hs : Progress w.node w.state) : Progress r.target o.state := by
  have hframe := nodeFuncs_frame h.outcome
  have hfanOut : w.node ≠ .fanOut := by
    intro hf
    rw [hf] at hearly
    cases hearly
  have hattempts : o.state.spent.attempts = w.state.spent.attempts := hframe.attempts hsolve
  apply Progress.of_noPending
  · by_contra he
    rcases source_of_target_early r h.chosen.mem (by simpa using he) with hsource | hsource |
      hsource <;> rw [← h.chosen.source, hsource] at hearly <;> cases hearly
  · exact pendingBranches_kept h.outcome hsolve hfanOut (noPending_of_not_solve hs hsolve)
  · rw [hattempts, hframe.budget]
    exact hs.attempts
  · rintro (ht | ht)
    · rw [hattempts, hframe.budget]
      rcases source_of_target_solve r h.chosen.mem ht with hsource | hsource | hsource
      · rw [← h.chosen.source, hsource] at hearly
        cases hearly
      · exact (hfanOut (h.chosen.source.symm.trans hsource)).elim
      · have hroom := hs.room (Or.inr (h.chosen.source.symm.trans hsource))
        omega
    · rw [hattempts, hframe.budget]
      exact attempts_lt_of_retry h ht

theorem progress_commit {py : Platform} {ctx : NodeContext} {w : World} {o : NodeOutcome}
    {r : Route} (h : Committed py ctx w o r) (hs : Progress w.node w.state) :
    Progress r.target (commitHop ctx w o r).state := by
  apply Progress.commit
  have houtcome := h.outcome
  have hchosen := h.chosen
  by_cases hsolve : w.node = .solve
  · rw [hsolve] at houtcome hs hchosen
    exact progress_of_solve houtcome hchosen hs
  · by_cases hearly : isEarly w.node = true
    · have hu := hs.unstarted hearly
      by_cases hfanOut : w.node = .fanOut
      · rw [hfanOut] at houtcome hchosen
        exact progress_of_fanOut houtcome hchosen hu
      · apply Progress.of_unstarted
        apply unstarted_of_prepare _ houtcome hu
        cases hn : w.node <;> simp_all [isEarly]
    · exact progress_of_later h (by simpa using hearly) hsolve hs

theorem Progress.finalize {s : RunState} (h : Progress .finalize s) (t : Tree) :
    Progress .finalize (finalize s t).state := by
  refine ⟨fun he => (by cases he), h.fresh, h.first, h.attempts, ?_⟩
  rintro (hn | hn) <;> cases hn

/-- Every step keeps `Progress`. -/
theorem progress_step {py : Platform} {w w' : World} {l : Label}
    (hs : Progress w.node w.state) (h : (engine py).step w l = some w') :
    Progress w'.node w'.state :=
  checkpoint_step (fun node s _ => Progress node s)
    (fun _ _ _ _ hw hc _ => progress_commit hc hw) (fun _ t _ hp => hp.finalize t) hs h

theorem progress_start (i : Start) : Progress (start i).node (start i).state :=
  Progress.of_unstarted ⟨rfl, rfl, rfl, rfl, rfl⟩ _

end Recertia.Graph
