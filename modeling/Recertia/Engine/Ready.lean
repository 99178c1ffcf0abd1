import Recertia.Engine.Honest
import Recertia.Engine.Progress

/-! What every checkpoint hands to the next node: a signal to classify, a snapshot to restore,
complete audits, a draft to store; what its route log tells of the run, and what of the contract
no hop changes. -/
namespace Recertia.Graph

open FileTree (Tree)

def firstSnapshot (s : RunState) : Option String :=
  s.workspaceSnapshots.head?.map fun snapshot => snapshot.snapshotRef

/-- No node changes which snapshot is the first. -/
theorem nodeFuncs_firstSnapshot {py : Platform} {ctx : NodeContext} {node : Node}
    {snapshots : SnapshotStore} {s : RunState} {t : Tree} {o : NodeOutcome}
    (h : nodeFuncs py ctx node snapshots s t = .ok o) :
    firstSnapshot o.state = firstSnapshot s := by
  unfold firstSnapshot
  by_cases hevolve : node = .evolve
  · subst hevolve
    obtain ⟨clean, rest, tree, move, hs, -, rfl⟩ := evolve_spec h
    rw [hs]
    rfl
  · rw [(nodeFuncs_frame h).snapshots hevolve]

/-- The first snapshot stays, or it is taken on the way to `solve`. -/
theorem commitHop_firstSnapshot (ctx : NodeContext) (w : World) (o : NodeOutcome) (r : Route) :
    (firstSnapshot (commitHop ctx w o r).state = firstSnapshot o.state ∧
      (commitHop ctx w o r).snapshots = w.snapshots ∧
      (r.target = .solve → (firstSnapshot o.state).isSome = true)) ∨
    ∃ ref, firstSnapshot (commitHop ctx w o r).state = some ref ∧
      (commitHop ctx w o r).snapshots = (ref, o.workdir) :: w.snapshots := by
  unfold commitHop ensurePreSolveSnapshot
  by_cases hkeep : r.target ≠ .solve ∨ o.state.workspaceSnapshots ≠ []
  · refine Or.inl ?_
    simp only [if_pos hkeep]
    refine ⟨rfl, trivial, fun ht => ?_⟩
    have hne := hkeep.resolve_left (not_not.mpr ht)
    obtain ⟨clean, rest, hs⟩ := List.exists_cons_of_ne_nil hne
    simp [firstSnapshot, hs]
  · refine Or.inr ?_
    simp only [if_neg hkeep]
    exact ⟨_, rfl, rfl⟩

/-- The nodes of an attempt: they run behind the pre-solve snapshot. -/
def inAttempt : Node → Bool
  | .solve => true
  | .validate => true
  | .join => true
  | .evolve => true
  | _ => false

/-- The first snapshot can be restored, and it is there before a repair asks for it. -/
structure Snapshotted (node : Node) (s : RunState) (snapshots : SnapshotStore) : Prop where
  stored : ∀ ref ∈ firstSnapshot s, (snapshots.lookup ref).isSome = true
  taken : inAttempt node = true → (firstSnapshot s).isSome = true
  failing : node = .classifyFailure → (firstSnapshot s).isSome = true ∨
    ∃ signal, s.failureSignal = some signal ∧ signal.classHint = some .budget

theorem source_of_target_attempt : ∀ r ∈ routes, inAttempt r.target = true →
    r.target = .solve ∨ r.source = .solve ∨ r.source = .validate ∨
      (r.source = .classifyFailure ∧ r.target = .evolve) := by decide

theorem source_of_target_classify : ∀ r ∈ routes, r.target = .classifyFailure →
    (r.source = .fanOut ∧ r.predicateName = .preDispatchBudgetFailure) ∨
    (r.source = .solve ∧ r.predicateName = .preValidationFailureSignal) ∨
    (r.source = .validate ∧ r.predicateName = .noBranchesAndFailing) ∨
    (r.source = .join ∧ r.predicateName = .otherwise) := by decide

/-- A budget signal is never retried. -/
theorem noRetry_of_budget {py : Platform} {ctx : NodeContext} {w : World} {o : NodeOutcome}
    {r : Route} (h : Committed py ctx w o r) (ht : r.target = .evolve) {signal : FailureSignal}
    (hsignal : w.state.failureSignal = some signal) : signal.classHint ≠ some .budget := by
  intro hhint
  have hnode : w.node = .classifyFailure :=
    h.chosen.source.symm.trans (source_of_target_evolve r h.chosen.mem ht).1
  have houtcome := h.outcome
  rw [hnode] at houtcome
  obtain ⟨signal', hsignal', rfl⟩ := classifyFailure_spec houtcome
  rw [hsignal] at hsignal'
  cases hsignal'
  have hpred := h.chosen.predicate
  rw [predicate_of_target_evolve r h.chosen.mem ht] at hpred
  have hbudget : verdictFor ctx w.state signal =
      neutral .budget (budgetEvidence w.state signal) := if_pos (by simp [isBudgetFailure, hhint])
  simp [budgetRemainsWithProgress, hbudget, neutral] at hpred

theorem refused_of_fanOut {ctx : NodeContext} {s : RunState} {t : Tree} {o : NodeOutcome}
    (h : fanOut ctx s t = .ok o) (hroute : o.route = some .preDispatchBudgetFailure) :
    ∃ signal, o.state.failureSignal = some signal ∧ signal.classHint = some .budget := by
  rcases fanOut_spec h with ⟨hr, -⟩ | ⟨exhausted, rfl⟩ | ⟨branches, requested, -, rfl⟩
  · rw [hr] at hroute
    cases hroute
  · exact ⟨_, rfl, rfl⟩
  · cases hroute

theorem snapshotted_commit {py : Platform} {ctx : NodeContext} {w : World} {o : NodeOutcome}
    {r : Route} (h : Committed py ctx w o r) (hs : Snapshotted w.node w.state w.snapshots) :
    Snapshotted r.target (commitHop ctx w o r).state (commitHop ctx w o r).snapshots := by
  have hfirst := nodeFuncs_firstSnapshot h.outcome
  have hsource := h.chosen.source
  rcases commitHop_firstSnapshot ctx w o r with ⟨hstate, hstore, hsolve⟩ | ⟨ref, hstate, hstore⟩
  · rw [hfirst] at hstate hsolve
    refine ⟨?_, ?_, ?_⟩
    · rw [hstate, hstore]
      exact hs.stored
    · intro hattempt
      rw [hstate]
      rcases source_of_target_attempt r h.chosen.mem hattempt with ht | hn | hn | ⟨hn, ht⟩
      · exact hsolve ht
      · exact hs.taken (by rw [← hsource, hn]; rfl)
      · exact hs.taken (by rw [← hsource, hn]; rfl)
      · rcases hs.failing (hsource.symm.trans hn) with htaken | ⟨signal, hsignal, hhint⟩
        · exact htaken
        · exact (noRetry_of_budget h ht hsignal hhint).elim
    · intro ht
      rw [hstate]
      rcases source_of_target_classify r h.chosen.mem ht with ⟨hn, hname⟩ | ⟨hn, -⟩ | ⟨hn, -⟩ |
        ⟨hn, -⟩
      · refine Or.inr ?_
        have houtcome := h.outcome
        rw [← hsource, hn] at houtcome
        have hroute := h.chosen.name
        rw [hname] at hroute
        obtain ⟨snapshots, hcommit⟩ := commitHop_state ctx w o r
        rw [hcommit]
        exact refused_of_fanOut houtcome hroute
      all_goals exact Or.inl (hs.taken (by rw [← hsource, hn]; rfl))
  · refine ⟨?_, fun _ => by rw [hstate]; rfl, fun _ => Or.inl (by rw [hstate]; rfl)⟩
    rw [hstate, hstore]
    intro ref' href'
    cases href'
    rw [List.lookup_cons_self]
    rfl

/-- An incomplete audit stays explained by a branch that is still missing. -/
def Audited (s : RunState) : Prop :=
  missingBranches s.branches = [] → ∀ audit ∈ s.mergeAudits, audit.isComplete = true

theorem audited_of_join {py : Platform} {ctx : NodeContext} {s : RunState} {t : Tree}
    {o : NodeOutcome} (h : join py ctx s t = .ok o) (hs : Audited s) : Audited o.state := by
  rcases join_spec h with ⟨hgap, rfl⟩ | ⟨hmiss, -, signal, rfl⟩ |
    ⟨hmiss, _, _, winner, audit, -, -, haudit, rfl⟩
  · intro hmiss
    exact (hgap hmiss).elim
  · intro _ audit ha
    rcases List.mem_append.mp ha with hold | hnew
    · exact hs hmiss audit hold
    · rw [List.mem_singleton] at hnew
      rw [hnew]
      exact joinAudit_isComplete hmiss
  · intro _ a ha
    rcases List.mem_append.mp ha with hold | hnew
    · exact hs hmiss a hold
    · rw [List.mem_singleton] at hnew
      rw [hnew]
      exact haudit

theorem audited_of_outcome {py : Platform} {ctx : NodeContext} {node : Node}
    {snapshots : SnapshotStore} {s : RunState} {t : Tree} {o : NodeOutcome}
    (h : nodeFuncs py ctx node snapshots s t = .ok o) (hp : Progress node s) (hs : Audited s) :
    Audited o.state := by
  by_cases hjoin : node = .join
  · subst hjoin
    exact audited_of_join h hs
  have haudits : o.state.mergeAudits = s.mergeAudits := (nodeFuncs_frame h).audits hjoin
  have hnone (hempty : s.mergeAudits = []) : Audited o.state := by
    intro _ audit ha
    rw [haudits, hempty] at ha
    cases ha
  by_cases hfanOut : node = .fanOut
  · exact hnone (hp.unstarted (by rw [hfanOut]; rfl)).audits
  by_cases hsolve : node = .solve
  · subst hsolve
    by_cases hpending : pendingBranches s = []
    · have hbranches := (solve_attempted h hp.fresh).kept hpending
      unfold Audited
      rw [hbranches, haudits]
      exact hs
    · exact hnone (hp.first hpending).2.2
  have hbranches := (nodeFuncs_frame h).branches hfanOut hsolve hjoin
  unfold Audited
  rw [hbranches, haudits]
  exact hs

/-- A node that routes to `classify_failure` has raised a signal. -/
theorem signal_of_target_classify {py : Platform} {ctx : NodeContext} {w : World}
    {o : NodeOutcome} {r : Route} (h : Committed py ctx w o r) (ht : r.target = .classifyFailure) :
    o.state.failureSignal.isSome = true := by
  have houtcome := h.outcome
  have hroute := h.chosen.name
  have hsource := h.chosen.source
  rcases source_of_target_classify r h.chosen.mem ht with ⟨hn, hname⟩ | ⟨hn, hname⟩ |
    ⟨hn, hname⟩ | ⟨hn, hname⟩ <;> rw [← hsource, hn] at houtcome <;> rw [hname] at hroute
  · obtain ⟨signal, hsignal, -⟩ := refused_of_fanOut houtcome hroute
    rw [hsignal]
    rfl
  · obtain ⟨path, -, ⟨-, run, -, hclose⟩ | ⟨-, n, hclose, -⟩⟩ := solve_spec houtcome
    · rcases hclose.route with ⟨-, hsignal⟩ | ⟨hr, -⟩
      · exact hsignal
      · rw [hr] at hroute
        cases hroute
    · rcases hclose.route with ⟨-, hsignal⟩ | ⟨hr, -⟩
      · exact hsignal
      · rw [hr] at hroute
        cases hroute
  · obtain ⟨score, -, rfl⟩ := validate_spec houtcome
    by_cases hsignal : score.failureSignal.isSome = true
    · exact hsignal
    · by_cases hb : w.state.branches.isEmpty <;> simp [hsignal, hb] at hroute
  · rcases join_spec houtcome with ⟨-, rfl⟩ | ⟨-, -, signal, rfl⟩ |
      ⟨-, _, score, _, _, -, -, -, rfl⟩
    · rfl
    · rfl
    · by_cases hsignal : score.failureSignal.isSome = true
      · exact hsignal
      · simp [joinScored, hsignal] at hroute

/-- `store` runs behind an approved draft. -/
theorem draft_of_target_store {py : Platform} {ctx : NodeContext} {w : World} {o : NodeOutcome}
    {r : Route} (h : Committed py ctx w o r) (ht : r.target = .store) :
    o.state.draft.isSome = true ∧ versionWriteExhausted o.state = false := by
  have hname : ∀ r ∈ routes, r.target = .store →
      r.source = .review ∧ r.predicateName = .approved := by decide
  obtain ⟨hn, happroved⟩ := hname r h.chosen.mem ht
  have houtcome := h.outcome
  have hroute := h.chosen.name
  rw [← h.chosen.source, hn] at houtcome
  rw [happroved] at hroute
  cases houtcome
  simp only [review, Option.some.injEq] at hroute ⊢
  split at hroute
  · rename_i hgates
    simp only [Bool.and_eq_true, Bool.not_eq_true'] at hgates
    exact ⟨hgates.1.1.1, hgates.2⟩
  · cases hroute

theorem source_of_target_finalize : ∀ r ∈ routes, r.target = .finalize →
    terminalByPredecessor r.source ≠ .error := by decide

/-- The run invariant behind the legality of every hop. -/
structure Ready (node : Node) (s : RunState) (snapshots : SnapshotStore) : Prop where
  progress : Progress node s
  snapshotted : Snapshotted node s snapshots
  audited : Audited s
  versions : s.spent.versionsWritten ≤ s.budget.maxVersionsWritten
  signal : node = .classifyFailure → s.failureSignal.isSome = true
  draft : node = .store → s.draft.isSome = true ∧ versionWriteExhausted s = false
  entered : node = .finalize → ∃ entry, s.routeLog.getLast? = some entry ∧
    terminalByPredecessor entry.node ≠ .error

theorem ready_commit {py : Platform} {ctx : NodeContext} {w : World} {o : NodeOutcome}
    {r : Route} (h : Committed py ctx w o r)
    (hversions : o.state.spent.versionsWritten ≤ o.state.budget.maxVersionsWritten)
    (hs : Ready w.node w.state w.snapshots) :
    Ready r.target (commitHop ctx w o r).state (commitHop ctx w o r).snapshots := by
  have hlog := commitHop_routeLog (r := r) h.outcome
  have haudited := audited_of_outcome h.outcome hs.progress hs.audited
  have hprogress := progress_commit h hs.progress
  have hsnapshotted := snapshotted_commit h hs.snapshotted
  have hentered (ht : r.target = .finalize) :
      ∃ entry, (commitHop ctx w o r).state.routeLog.getLast? = some entry ∧
        terminalByPredecessor entry.node ≠ .error := by
    rw [hlog, List.getLast?_concat]
    refine ⟨_, rfl, ?_⟩
    rw [← h.chosen.source]
    exact source_of_target_finalize r h.chosen.mem ht
  obtain ⟨snapshots, hstate⟩ := commitHop_state ctx w o r
  refine ⟨hprogress, hsnapshotted, ?_, ?_, ?_, ?_, hentered⟩
  · rw [hstate]
    exact haudited
  · rw [hstate]
    exact hversions
  · intro ht
    rw [hstate]
    exact signal_of_target_classify h ht
  · intro ht
    rw [hstate]
    exact draft_of_target_store h ht

theorem ready_step {py : Platform} {w w' : World} {l : Label}
    (hs : Ready w.node w.state w.snapshots) (h : (engine py).step w l = some w') :
    Ready w'.node w'.state w'.snapshots := by
  refine checkpoint_step Ready (fun ctx w o r hw hc hv => ready_commit hc hv hw) ?_ hs h
  intro s t snapshots hr
  refine ⟨hr.progress.finalize t, ?_, hr.audited, hr.versions, fun hn => (by cases hn),
    fun hn => (by cases hn), hr.entered⟩
  exact ⟨hr.snapshotted.stored, fun he => (by cases he), fun hn => (by cases hn)⟩

theorem ready_start (i : Start) :
    Ready (start i).node (start i).state (start i).snapshots where
  progress := progress_start i
  snapshotted := ⟨fun ref href => (by cases href), fun h => (by cases h), fun h => (by cases h)⟩
  audited := fun _ audit ha => (by cases ha)
  versions := Nat.zero_le _
  signal := fun h => (by cases h)
  draft := fun h => (by cases h)
  entered := fun h => (by cases h)

/-- Follows one entry of a route log from a node with the attempts closed so far: the entry is about
that node, numbers the attempt, and names a route of the table. -/
def RouteEntry.follow (reached : Node × ℕ) (e : RouteEntry) : Option (Node × ℕ) :=
  let attempts := if e.node = .solve then reached.2 + 1 else reached.2
  if e.node = reached.1 ∧ e.attemptNo = attempts then
    ((routesFrom e.node).find? fun r => r.predicateName == e.route).map fun r =>
      (r.target, attempts)
  else none

/-- Where a route log leads from `intake`: the next node, and the attempts on the way. -/
def replayLog (log : List RouteEntry) : Option (Node × ℕ) :=
  log.foldlM RouteEntry.follow (.intake, 0)

theorem replayLog_concat (log : List RouteEntry) (e : RouteEntry) :
    replayLog (log ++ [e]) = (replayLog log).bind fun reached => e.follow reached := by
  unfold replayLog
  rw [List.foldlM_append]
  show ((log.foldlM RouteEntry.follow (Node.intake, 0)).bind fun reached =>
    [e].foldlM RouteEntry.follow reached) = _
  apply congrArg
  funext reached
  rw [List.foldlM_cons]
  exact Option.bind_fun_some _

/-- No two routes out of a node share their name. -/
theorem target_of_named : ∀ r ∈ routes,
    ((routesFrom r.source).find? fun other => other.predicateName == r.predicateName).map
      Route.target = some r.target := by
  intro r hr
  simp only [routes, List.mem_cons, List.not_mem_nil, or_false] at hr
  rcases hr with rfl | rfl | rfl | rfl | rfl | rfl | rfl | rfl | rfl | rfl | rfl | rfl | rfl |
    rfl | rfl | rfl | rfl | rfl | rfl | rfl | rfl | rfl | rfl | rfl <;> rfl

theorem follow_chosen {o : NodeOutcome} {r : Route} {node : Node} (hr : Chosen node o r)
    (attempts : ℕ) :
    RouteEntry.follow (node, attempts)
        ⟨node, r.predicateName, if node = .solve then attempts + 1 else attempts⟩ =
      some (r.target, if node = .solve then attempts + 1 else attempts) := by
  have htarget := target_of_named r hr.mem
  rw [hr.source] at htarget
  unfold RouteEntry.follow
  simp only [and_self, if_true]
  obtain ⟨found, hfound, heq⟩ := Option.map_eq_some_iff.mp htarget
  rw [hfound, Option.map_some, heq]

theorem solve_attemptNo {py : Platform} {ctx : NodeContext} {s : RunState} {t : Tree}
    {o : NodeOutcome} (h : solve py ctx s t = .ok o) : o.state.attemptNo = s.attemptNo + 1 := by
  obtain ⟨path, -, ⟨-, run, -, hclose⟩ | ⟨-, n, hclose, -⟩⟩ := solve_spec h
  · obtain ⟨spent, ref, signal, hstate⟩ := hclose.state
    rw [hstate]
    rfl
  · obtain ⟨spent, ref, signal, hstate⟩ := hclose.state
    rw [hstate]

/-- A commit closes the attempt that its log entry numbers. -/
theorem commitHop_attemptNo {py : Platform} {ctx : NodeContext} {w : World} {o : NodeOutcome}
    {r : Route} (ho : nodeFuncs py ctx w.node w.snapshots w.state w.workdir = .ok o) :
    (commitHop ctx w o r).state.attemptNo = attemptNoForCtx w := by
  obtain ⟨snapshots, hstate⟩ := commitHop_state ctx w o r
  rw [hstate]
  show o.state.attemptNo = attemptNoForCtx w
  unfold attemptNoForCtx
  by_cases hsolve : w.node = .solve
  · rw [if_pos hsolve]
    rw [hsolve] at ho
    exact solve_attemptNo ho
  · rw [if_neg hsolve]
    exact (nodeFuncs_frame ho).attemptNo hsolve

/-- What the route log of a checkpoint tells. -/
structure Logged (w : World) : Prop where
  replays : replayLog w.state.routeLog = some (w.node, w.state.attemptNo)
  charged : w.state.attemptNo ≤ w.state.spent.attempts
  /-- the run is over when its terminal is set, and the log's last entry tells which one it is -/
  terminal : w.state.terminal = if w.halted = some .finished then
    w.state.routeLog.getLast?.map fun e => terminalByPredecessor e.node else none
  finalized : w.halted = some .finished → w.node = .finalize

theorem logged_start (i : Start) : Logged (start i) where
  replays := rfl
  charged := Nat.le_refl 0
  terminal := rfl
  finalized := fun h => (by cases h)

theorem charged_commit {py : Platform} {ctx : NodeContext} {w : World} {o : NodeOutcome}
    {r : Route} (ho : nodeFuncs py ctx w.node w.snapshots w.state w.workdir = .ok o)
    (hp : Progress w.node w.state) (hs : w.state.attemptNo ≤ w.state.spent.attempts) :
    (commitHop ctx w o r).state.attemptNo ≤ (commitHop ctx w o r).state.spent.attempts := by
  have hkeep : (commitHop ctx w o r).state.spent = o.state.spent := by
    obtain ⟨snapshots, hstate⟩ := commitHop_state ctx w o r
    rw [hstate]
  rw [commitHop_attemptNo ho, hkeep]
  unfold attemptNoForCtx
  by_cases hsolve : w.node = .solve
  · rw [if_pos hsolve]
    rw [hsolve] at ho
    have hattempts := (solve_attempted ho hp.fresh).attempts
    omega
  · rw [if_neg hsolve, (nodeFuncs_frame ho).attempts hsolve]
    exact hs

theorem logged_commit {py : Platform} {ctx : NodeContext} {w : World} {o : NodeOutcome}
    {r : Route} (h : Committed py ctx w o r) (hrun : w.halted = none)
    (hp : Progress w.node w.state) (hs : Logged w) : Logged (commitHop ctx w o r) := by
  have hlog := commitHop_routeLog (r := r) h.outcome
  have hnumber := commitHop_attemptNo (r := r) h.outcome
  refine ⟨?_, charged_commit h.outcome hp hs.charged, ?_, fun hfinished => ?_⟩
  · calc replayLog (commitHop ctx w o r).state.routeLog
        = (replayLog w.state.routeLog).bind fun reached =>
            RouteEntry.follow reached ⟨w.node, r.predicateName, attemptNoForCtx w⟩ := by
          rw [hlog, replayLog_concat]
      _ = RouteEntry.follow (w.node, w.state.attemptNo)
            ⟨w.node, r.predicateName, attemptNoForCtx w⟩ := by
          rw [hs.replays, Option.bind_some]
      _ = some (r.target, attemptNoForCtx w) := follow_chosen h.chosen w.state.attemptNo
      _ = some ((commitHop ctx w o r).node, (commitHop ctx w o r).state.attemptNo) := by
          rw [hnumber, commitHop_node]
  · rw [commitHop_halted, if_neg (by simp)]
    obtain ⟨snapshots, hstate⟩ := commitHop_state ctx w o r
    rw [hstate]
    show o.state.terminal = none
    rw [(nodeFuncs_frame h.outcome).terminal h.node, hs.terminal, hrun, if_neg (by simp)]
  · rw [commitHop_halted] at hfinished
    cases hfinished

theorem logged_finalize {w : World} (hnode : w.node = .finalize) (hs : Logged w)
    (hr : Ready w.node w.state w.snapshots) :
    Logged { w with
      state := (finalize w.state w.workdir).state
      steps := w.steps + 1
      halted := some .finished } := by
  obtain ⟨entry, hentry, -⟩ := hr.entered hnode
  refine ⟨hs.replays, hs.charged, ?_, fun _ => hnode⟩
  rw [if_pos rfl]
  simp only [finalize, hentry, Option.map_some]

theorem logged_step {py : Platform} {w w' : World} {l : Label}
    (hr : Ready w.node w.state w.snapshots) (hs : Logged w)
    (h : (engine py).step w l = some w') : Logged w' := by
  rcases step_cases h with ⟨workdir, -, hopen, -, rfl⟩ | ⟨ctx, e, -, hrun, rfl⟩ |
    ⟨ctx, -, -, hnode, rfl⟩ | ⟨ctx, o, r, -, hrun, hnode, ho, -, hchosen, rfl⟩
  · -- A resume goes on from a run that has no terminal yet.
    refine ⟨hs.replays, hs.charged, ?_, fun hfinished => (by cases hfinished)⟩
    rw [if_neg (by simp)]
    show w.state.terminal = none
    rw [hs.terminal, if_neg hopen]
  · refine ⟨hs.replays, hs.charged, ?_, fun hfinished => (by cases hfinished)⟩
    show w.state.terminal = if (some (Halt.raised e)) = some .finished then _ else none
    rw [hs.terminal, hrun, if_neg (by simp), if_neg (by simp)]
  · exact logged_finalize hnode hs hr
  · exact logged_commit ⟨hnode, ho, hchosen⟩ hrun hr.progress hs

/-- For every run from `intake` with its crashes and resumes, the route log alone tells where the
run stands: followed along the route table from `intake` it leads to the node that is next and
counts the attempts that were closed, and the terminal is set on a finished run only, as the log's
last entry tells. -/
theorem route_log_replays (py : Platform) (i : Start) (ls : List Label) (w : World)
    (h : (engine py).run (start i) ls = some w) : Logged w := by
  have hinv := Transition.System.run_invariant (T := engine py)
    (I := fun w => Ready w.node w.state w.snapshots ∧ Logged w)
    (fun _ _ _ hs hstep => ⟨ready_step hs.1 hstep, logged_step hs.1 hs.2 hstep⟩)
    ⟨ready_start i, logged_start i⟩ h
  exact hinv.2

theorem route_log_replays_scripted :
    ∃ w, (engine plainPlatform).run (start scriptedStart)
        (List.replicate 7 (.hop scriptedHop)) = some w ∧
      w.halted = some .finished ∧ replayLog w.state.routeLog = some (.finalize, 1) := by
  have hrun : ((engine plainPlatform).run (start scriptedStart)
      (List.replicate 7 (.hop scriptedHop))).map (fun w => (w.halted, w.state.attemptNo)) =
        some (some .finished, 1) := by decide +kernel
  obtain ⟨w, hw, hboth⟩ := Option.map_eq_some_iff.mp hrun
  have hfinished : w.halted = some .finished := congrArg Prod.fst hboth
  have hnumber : w.state.attemptNo = 1 := congrArg Prod.snd hboth
  have hlogged := route_log_replays _ _ _ w hw
  refine ⟨w, hw, hfinished, ?_⟩
  rw [hlogged.replays, hlogged.finalized hfinished, hnumber]

end Recertia.Graph
