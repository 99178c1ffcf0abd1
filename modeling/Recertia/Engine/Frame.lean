import Recertia.Engine.Hop
import Recertia.Node.SolveSpec

/-! What one step of the engine can do, and which fields each node leaves alone. -/
namespace Recertia.Graph

open FileTree (Tree)

/-- A legal route that the outcome names. -/
structure Chosen (node : Node) (o : NodeOutcome) (r : Route) : Prop where
  mem : r ∈ routes
  source : r.source = node
  predicate : r.predicate o.state = true
  name : o.route = some r.predicateName

/-- Everything that a step can do. -/
inductive StepKind (py : Platform) (w : World) (l : Label) (w' : World) : Prop
  | resumed (workdir : Tree) (label : l = .resume workdir)
      (notFinished : w.halted ≠ some .finished) (checkpointed : w.state.routeLog ≠ [])
      (next : w' = { w with workdir, steps := 0, halted := none })
  | raised (ctx : NodeContext) (e : RunError) (label : l = .hop ctx) (running : w.halted = none)
      (next : w' = raiseError w e)
  | finished (ctx : NodeContext) (label : l = .hop ctx) (running : w.halted = none)
      (node : w.node = .finalize)
      (next : w' = { w with
        state := (finalize w.state w.workdir).state
        steps := w.steps + 1
        halted := some .finished })
  | committed (ctx : NodeContext) (o : NodeOutcome) (r : Route) (label : l = .hop ctx)
      (running : w.halted = none) (node : w.node ≠ .finalize)
      (outcome : nodeFuncs py ctx w.node w.snapshots w.state w.workdir = .ok o)
      (versions : o.state.spent.versionsWritten ≤ o.state.budget.maxVersionsWritten)
      (chosen : Chosen w.node o r) (next : w' = commitHop ctx w o r)

/-- The fields that a node leaves alone. -/
structure NodeFrame (node : Node) (s : RunState) (o : NodeOutcome) : Prop where
  runId : o.state.runId = s.runId
  task : o.state.task = s.task
  routeLog : o.state.routeLog = s.routeLog
  budget : o.state.budget = s.budget
  terminal : node ≠ .finalize → o.state.terminal = s.terminal
  criteria : node ≠ .intake → o.state.criteria = s.criteria
  attempts : node ≠ .solve → o.state.spent.attempts = s.spent.attempts
  toolCalls : node ≠ .solve → o.state.spent.toolCalls = s.spent.toolCalls
  versionsWritten : node ≠ .store → o.state.spent.versionsWritten = s.spent.versionsWritten
  attemptNo : node ≠ .solve → o.state.attemptNo = s.attemptNo
  branches : node ≠ .fanOut → node ≠ .solve → node ≠ .join → o.state.branches = s.branches
  snapshots : node ≠ .evolve → o.state.workspaceSnapshots = s.workspaceSnapshots
  audits : node ≠ .join → o.state.mergeAudits = s.mergeAudits
  route : node ≠ .finalize → o.route.isSome = true

theorem fanOut_frame {ctx : NodeContext} {s : RunState} {t : Tree} {o : NodeOutcome}
    (h : fanOut ctx s t = .ok o) : NodeFrame .fanOut s o := by
  rcases fanOut_spec h with ⟨hr, hs | hs⟩ | ⟨exhausted, rfl⟩ | ⟨branches, requested, -, rfl⟩
  · constructor <;> simp [hr, hs]
  · constructor <;> simp [hr, hs]
  · constructor <;> simp [refuseFanOut]
  · constructor <;> simp [dispatchBranches]

theorem closesAttempt_frame {s base : RunState} {n k : ℕ} {o : NodeOutcome}
    (hbase : ∃ reserved branches, base = { s with reserved, branches })
    (h : ClosesAttempt base n k o) : NodeFrame .solve s o := by
  obtain ⟨reserved, branches, rfl⟩ := hbase
  obtain ⟨spent, ref, signal, hstate⟩ := h.state
  have hversions : o.state.spent.versionsWritten = s.spent.versionsWritten := h.versionsWritten
  have hroute : o.route.isSome = true := by
    rcases h.route with ⟨hr, -⟩ | ⟨hr, -⟩ <;> simp [hr]
  constructor <;> simp_all

theorem solve_frame {py : Platform} {ctx : NodeContext} {s : RunState} {t : Tree}
    {o : NodeOutcome} (h : solve py ctx s t = .ok o) : NodeFrame .solve s o := by
  obtain ⟨path, -, ⟨-, run, -, hclose⟩ | ⟨-, n, hclose, -⟩⟩ := solve_spec h
  · exact closesAttempt_frame ⟨_, _, rfl⟩ hclose
  · exact closesAttempt_frame ⟨s.reserved, s.branches, rfl⟩ hclose

theorem join_frame {py : Platform} {ctx : NodeContext} {s : RunState} {t : Tree}
    {o : NodeOutcome} (h : join py ctx s t = .ok o) : NodeFrame .join s o := by
  rcases join_spec h with ⟨-, rfl⟩ | ⟨-, -, signal, rfl⟩ | ⟨-, _, _, _, _, -, -, -, rfl⟩
  · constructor <;> simp [joinGap]
  · constructor <;> simp [joinUnmerged]
  · constructor <;> simp [joinScored]

theorem nodeFuncs_frame {py : Platform} {ctx : NodeContext} {node : Node}
    {snapshots : SnapshotStore} {s : RunState} {t : Tree} {o : NodeOutcome}
    (h : nodeFuncs py ctx node snapshots s t = .ok o) : NodeFrame node s o := by
  cases node with
  | intake =>
    obtain ⟨criteria, -, rfl⟩ := intake_spec h
    constructor <;> simp
  | retrieve =>
    cases h
    constructor <;> simp [retrieve]
  | plan =>
    cases h
    obtain ⟨strategy, chosen, guide, hs⟩ := (planState_planned ctx s).state
    constructor <;> simp [plan, hs]
  | fanOut => exact fanOut_frame h
  | solve => exact solve_frame h
  | validate =>
    obtain ⟨score, -, rfl⟩ := validate_spec h
    constructor <;> simp
  | join => exact join_frame h
  | classifyFailure =>
    obtain ⟨signal, -, rfl⟩ := classifyFailure_spec h
    constructor <;> simp
  | evolve =>
    obtain ⟨clean, rest, tree, move, -, -, rfl⟩ := evolve_spec h
    constructor <;> simp [applyMove]
  | distill =>
    obtain ⟨draft, verdict, hs, hr⟩ := distill_spec h
    have hroute : o.route.isSome = true := by
      rcases hr with ⟨hr, -⟩ | ⟨hr, -⟩ <;> simp [hr]
    constructor <;> simp [hs, hroute]
  | review =>
    cases h
    constructor <;> simp [review]
  | store =>
    have ho := store_spec h
    subst ho
    constructor <;> simp [chargeVersionWrite]
  | recordDeadEnd =>
    cases h
    constructor <;> simp [recordDeadEnd]
  | rejectDraft =>
    cases h
    constructor <;> simp [rejectDraft]
  | finalize =>
    cases h
    constructor <;> simp [finalize]

theorem chosen_of_chooseRoute {node : Node} {o : NodeOutcome} {r : Route}
    (h : chooseRoute node o = some r) (hroute : o.route.isSome = true) : Chosen node o r := by
  unfold chooseRoute at h
  split at h
  · rename_i name hname
    have hmem := mem_legalRoutes.mp (List.mem_of_find?_eq_some h)
    have hr : r.predicateName = name := by simpa using List.find?_some h
    exact ⟨hmem.1, hmem.2.1, hmem.2.2, by rw [hname, hr]⟩
  · rename_i hnone _
    simp [hnone] at hroute
  · cases h

/-- The inversion lemma of the engine. -/
theorem step_cases {py : Platform} {w w' : World} {l : Label}
    (h : (engine py).step w l = some w') : StepKind py w l w' := by
  cases l with
  | resume workdir =>
    simp only [engine, resume] at h
    split at h
    · cases h
    · rename_i hguard
      rw [not_or] at hguard
      cases h
      exact .resumed workdir rfl hguard.1 hguard.2 rfl
  | hop ctx =>
    simp only [engine] at h
    split at h
    · cases h
    · rename_i hrunning
      have hrun : w.halted = none := by simpa using hrunning
      cases h
      unfold hop
      split
      · exact .raised ctx _ rfl hrun rfl
      · split
        · exact .raised ctx _ rfl hrun rfl
        · rename_i o ho
          unfold settle
          split
          · exact .raised ctx _ rfl hrun rfl
          · rename_i hversions
            split
            · rename_i hfinal
              rw [hfinal] at ho
              cases ho
              exact .finished ctx rfl hrun hfinal rfl
            · rename_i hfinal
              split
              · exact .raised ctx _ rfl hrun rfl
              · rename_i r hr
                have hroute := (nodeFuncs_frame ho).route hfinal
                exact .committed ctx o r rfl hrun hfinal ho (not_lt.mp hversions)
                  (chosen_of_chooseRoute hr hroute) rfl

/-- A commit keeps the outcome's state but for the snapshot list and the route log. -/
theorem commitHop_state (ctx : NodeContext) (w : World) (o : NodeOutcome) (r : Route) :
    ∃ snapshots, (commitHop ctx w o r).state =
      { o.state with
        workspaceSnapshots := snapshots
        routeLog := o.state.routeLog ++
          [{ node := w.node, route := r.predicateName, attemptNo := attemptNoForCtx w }] } := by
  unfold commitHop ensurePreSolveSnapshot
  by_cases hs : r.target ≠ .solve ∨ o.state.workspaceSnapshots ≠ []
  · exact ⟨o.state.workspaceSnapshots, by simp only [if_pos hs]⟩
  · exact ⟨[{ attemptNo := 0, snapshotRef := o.state.runId ++ "-attempt0-" ++ ctx.snapshotSuffix }],
      by simp only [if_neg hs]⟩

@[simp] theorem commitHop_node (ctx : NodeContext) (w : World) (o : NodeOutcome) (r : Route) :
    (commitHop ctx w o r).node = r.target := rfl

@[simp] theorem commitHop_workdir (ctx : NodeContext) (w : World) (o : NodeOutcome) (r : Route) :
    (commitHop ctx w o r).workdir = o.workdir := rfl

@[simp] theorem commitHop_steps (ctx : NodeContext) (w : World) (o : NodeOutcome) (r : Route) :
    (commitHop ctx w o r).steps = w.steps + 1 := rfl

@[simp] theorem commitHop_halted (ctx : NodeContext) (w : World) (o : NodeOutcome) (r : Route) :
    (commitHop ctx w o r).halted = none := rfl

@[simp] theorem raiseError_state (w : World) (e : RunError) : (raiseError w e).state = w.state :=
  rfl

@[simp] theorem raiseError_node (w : World) (e : RunError) : (raiseError w e).node = w.node := rfl

end Recertia.Graph
