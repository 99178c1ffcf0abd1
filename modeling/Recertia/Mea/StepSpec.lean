import Recertia.Engine.Frame
import Recertia.Mea.HopHooks

/-! What one step of the multi-round runs can do. -/
namespace Recertia.Mea

open Graph (Platform TaskCriterion)

variable {py : Platform} {criteriaHash : List TaskCriterion → String}

@[simp] theorem setRun_runs_self (w : World) (r : RunId) (rw : RunWorld) :
    (setRun w r rw).runs r = some rw := Function.update_self ..

theorem setRun_runs_of_ne (w : World) {r r' : RunId} (rw : RunWorld) (h : r' ≠ r) :
    (setRun w r rw).runs r' = w.runs r' := Function.update_of_ne h ..

@[simp] theorem setRun_sidecars (w : World) (r : RunId) (rw : RunWorld) :
    (setRun w r rw).sidecars = w.sidecars := rfl

@[simp] theorem setSidecar_runs (w : World) (r : RunId) (sidecar : Sidecar) :
    (setSidecar w r sidecar).runs = w.runs := by
  simp only [setSidecar]

theorem setSidecar_sidecars (w : World) (r : RunId) (sidecar : Sidecar) (path : String) :
    (setSidecar w r sidecar).sidecars path =
      if path = pathFor r then sidecar else w.sidecars path := by
  simp only [setSidecar, Function.update_apply]

/-- A hop of the graph that ends neither the loop nor the process. -/
structure GraphCommit (before after : Graph.World) : Prop where
  runId : after.state.runId = before.state.runId
  routeLog : ∃ entry, after.state.routeLog = before.state.routeLog ++ [entry]
  node : after.node ≠ .intake

theorem target_ne_intake : ∀ route ∈ Graph.routes, route.target ≠ .intake := by
  decide

theorem graph_step {before : Graph.World} {ctx : Graph.NodeContext}
    (h : before.halted = none) :
    (Graph.engine py).step before (.hop ctx) = some (Graph.hop py ctx before) := by
  simp [Graph.engine, h]

/-- A hop of the graph commits, or leaves the run id, the node and the route log. -/
theorem graph_hop_cases {before : Graph.World} (ctx : Graph.NodeContext)
    (h : before.halted = none) :
    ((Graph.hop py ctx before).halted = none ∧ GraphCommit before (Graph.hop py ctx before)) ∨
    ((Graph.hop py ctx before).halted.isSome = true ∧
      (Graph.hop py ctx before).state.runId = before.state.runId ∧
      (Graph.hop py ctx before).state.routeLog = before.state.routeLog ∧
      (Graph.hop py ctx before).node = before.node) := by
  generalize hafter : Graph.hop py ctx before = after
  have hstep : (Graph.engine py).step before (.hop ctx) = some after := by
    rw [graph_step h, hafter]
  rcases Graph.step_cases hstep with
    ⟨workdir, hl, -⟩ | ⟨ctx', e, -, -, rfl⟩ | ⟨ctx', -, -, -, rfl⟩ |
    ⟨ctx', o, route, hl, -, -, houtcome, -, hchosen, rfl⟩
  · cases hl
  · exact Or.inr ⟨rfl, rfl, rfl, rfl⟩
  · exact Or.inr ⟨rfl, rfl, rfl, rfl⟩
  · left
    have hframe := Graph.nodeFuncs_frame houtcome
    obtain ⟨snapshots, hstate⟩ := Graph.commitHop_state ctx' before o route
    refine ⟨rfl, ?_, ?_, target_ne_intake _ hchosen.mem⟩
    · rw [hstate]
      exact hframe.runId
    · rw [hstate]
      exact ⟨_, congrArg (· ++ _) hframe.routeLog⟩

/-- What the hooks make of a hop. -/
inductive HookKind (criteriaHash : List TaskCriterion → String) (env : HopEnv) (rw : RunWorld)
    (graph : Graph.World) (sidecar : Sidecar) (hooked : Hooked) : Prop
  | quiet (save : hooked.save = none) (delta : hooked.delta = none)
      (active : hooked.meaActive = true → rw.meaActive = true)
      (unbound : rw.graph.node ≠ .intake → hooked.meaActive = rw.meaActive)
  | bound (node : rw.graph.node = .intake) (save : hooked.save =
        some (createAuditedState criteriaHash rw.task graph.state env.policy env.now))
      (delta : hooked.delta = none) (active : hooked.meaActive = true)
  | audited (node : rw.graph.node = .validate) (s next : AuditedTaskState) (delta : AuditorDelta)
      (wasActive : rw.meaActive = true) (loaded : sidecar = .saved s)
      (applied : applyAuditorDelta s delta = .ok next) (save : hooked.save = some next)
      (hdelta : hooked.delta = some delta) (active : hooked.meaActive = true)

theorem stateHops_cases {env : HopEnv} {rw : RunWorld} {graph : Graph.World} {sidecar : Sidecar}
    {hooked : Hooked} (h : stateHops criteriaHash env rw graph sidecar = some hooked) :
    HookKind criteriaHash env rw graph sidecar hooked := by
  unfold stateHops at h
  split at h
  · rename_i hnode
    have hhooked := Option.some.inj h
    subst hhooked
    simp only [bindAfterIntake]
    split
    · exact .bound hnode rfl rfl rfl
    · split
      · exact .quiet rfl rfl (fun h => nomatch h) fun h => absurd hnode h
      · exact .quiet rfl rfl id fun _ => rfl
  · rename_i hnode
    simp only [auditAfterValidate] at h
    split at h
    · cases h
      exact .quiet rfl rfl id fun _ => rfl
    · rename_i hinactive
      have hactive : rw.meaActive = true := by simpa using hinactive
      split at h
      · cases h
        exact .quiet rfl rfl id fun _ => rfl
      · cases h
      · split at h
        · cases h
          exact .quiet rfl rfl id fun _ => rfl
        · rename_i s _ next delta happlied
          cases h
          exact .audited hnode s next delta hactive rfl (applyValidateAudit_spec happlied) rfl rfl
            hactive
  · cases h
    exact .quiet rfl rfl id fun _ => rfl

/-- A run that differs in its process, its workdir and the end of its loop only. -/
structure SameRun (rw rw' : RunWorld) : Prop where
  runId : rw'.graph.state.runId = rw.graph.state.runId
  routeLog : rw'.graph.state.routeLog = rw.graph.state.routeLog
  node : rw'.graph.node = rw.graph.node
  meaActive : rw'.meaActive = rw.meaActive
  deltas : rw'.deltas = rw.deltas
  created : rw'.created = rw.created

theorem sameRun_dead (rw : RunWorld) : SameRun rw rw.dead := ⟨rfl, rfl, rfl, rfl, rfl, rfl⟩

/-- The state that a hop of a run saves when nothing cuts it. -/
def savedBy (py : Platform) (criteriaHash : List TaskCriterion → String) (w : World) (r : RunId)
    (env : HopEnv) : Option AuditedTaskState :=
  match w.runs r with
  | none => none
  | some rw =>
    let graph := Graph.hop py env.ctx rw.graph
    if graph.halted.isSome then none
    else (stateHops criteriaHash env rw graph (w.sidecars (pathFor r))).bind Hooked.save

/-- Everything that a step can do. -/
inductive StepKind (py : Platform) (criteriaHash : List TaskCriterion → String) (w : World)
    (l : Label) (w' : World) : Prop
  | started (i : Graph.Start) (task : MeaTask) (label : l = .start i task)
      (unsaved : ∀ rw, w.runs i.runId = some rw → rw.graph.state.routeLog = [])
      (next : w' = setRun w i.runId { graph := Graph.start i, task })
  | resumed (r : RunId) (workdir : FileTree.Tree) (label : l = .resume r workdir)
      (rw rw' : RunWorld) (run : w.runs r = some rw) (same : SameRun rw rw')
      (next : w' = setRun w r rw')
  | unsaved (r : RunId) (env : HopEnv) (cut : Option Cut) (label : l = .hop r env cut)
      (rw rw' : RunWorld) (run : w.runs r = some rw) (same : SameRun rw rw')
      (next : w' = setRun w r rw')
      (nothing : cut = some .beforeSave ∨ savedBy py criteriaHash w r env = none)
  | committed (r : RunId) (env : HopEnv) (label : l = .hop r env none)
      (rw : RunWorld) (run : w.runs r = some rw) (graph : Graph.World) (hooked : Hooked)
      (commit : GraphCommit rw.graph graph)
      (hooks : HookKind criteriaHash env rw graph (w.sidecars (pathFor r)) hooked)
      (saved : savedBy py criteriaHash w r env = hooked.save)
      (next : w' = setRun (saveState w r hooked.save) r (commitHop rw graph hooked))
  | lost (r : RunId) (env : HopEnv) (cut : Cut) (label : l = .hop r env (some cut))
      (rw : RunWorld) (run : w.runs r = some rw) (graph : Graph.World) (hooked : Hooked)
      (commit : GraphCommit rw.graph graph)
      (hooks : HookKind criteriaHash env rw graph (w.sidecars (pathFor r)) hooked)
      (late : cut ≠ .beforeSave) (state : AuditedTaskState)
      (save : hooked.save = some state) (saved : savedBy py criteriaHash w r env = some state)
      (sidecar : Sidecar) (written : sidecar = .torn ∨ sidecar = .saved state)
      (next : w' = setRun (setSidecar w r sidecar) r rw.dead)

theorem hookedHop_cases {w w' : World} {r : RunId} {rw : RunWorld} {env : HopEnv}
    {cut : Option Cut} {graph : Graph.World} {hooked : Hooked} (hrun : w.runs r = some rw)
    (hcommit : GraphCommit rw.graph graph)
    (hhooks : HookKind criteriaHash env rw graph (w.sidecars (pathFor r)) hooked)
    (hsaved : savedBy py criteriaHash w r env = hooked.save)
    (h : w' = hookedHop w r rw graph hooked cut) :
    StepKind py criteriaHash w (.hop r env cut) w' := by
  cases cut with
  | none => exact .committed r env rfl rw hrun graph hooked hcommit hhooks hsaved h
  | some cut =>
    cases hsave : hooked.save with
    | none =>
      have hnext : w' = setRun w r rw.dead := by
        cases cut <;> simpa only [hookedHop, saveState, tearState, hsave] using h
      exact .unsaved r env (some cut) rfl rw rw.dead hrun (sameRun_dead rw) hnext
        (Or.inr (hsaved.trans hsave))
    | some state =>
      have hsome := hsaved.trans hsave
      cases cut with
      | beforeSave =>
        exact .unsaved r env _ rfl rw rw.dead hrun (sameRun_dead rw) h (Or.inl rfl)
      | midSave =>
        have hnext : w' = setRun (setSidecar w r .torn) r rw.dead := by
          simpa only [hookedHop, tearState, hsave] using h
        exact .lost r env _ rfl rw hrun graph hooked hcommit hhooks (by decide) state hsave hsome
          .torn (Or.inl rfl) hnext
      | afterSave =>
        have hnext : w' = setRun (setSidecar w r (.saved state)) r rw.dead := by
          simpa only [hookedHop, saveState, hsave] using h
        exact .lost r env _ rfl rw hrun graph hooked hcommit hhooks (by decide) state hsave hsome
          (.saved state) (Or.inr rfl) hnext

theorem hop_cases {w : World} {r : RunId} {rw : RunWorld} (env : HopEnv) (cut : Option Cut)
    (hrun : w.runs r = some rw) (hhalted : rw.graph.halted = none) :
    StepKind py criteriaHash w (.hop r env cut) (hop py criteriaHash w r rw env cut) := by
  have hsaved : savedBy py criteriaHash w r env =
      if (Graph.hop py env.ctx rw.graph).halted.isSome then none
      else (stateHops criteriaHash env rw (Graph.hop py env.ctx rw.graph)
        (w.sidecars (pathFor r))).bind Hooked.save := by
    simp only [savedBy, hrun]
  unfold hop
  have hgraph := @graph_hop_cases py rw.graph env.ctx hhalted
  rcases hgraph with ⟨hnone, hcommit⟩ | ⟨hsome, hrunId, hlog, hnode⟩
  · have hrunning : ¬ (Graph.hop py env.ctx rw.graph).halted.isSome = true := by simp [hnone]
    rw [if_neg hrunning] at hsaved
    dsimp only
    rw [if_neg hrunning]
    cases hhooks : stateHops criteriaHash env rw (Graph.hop py env.ctx rw.graph)
        (w.sidecars (pathFor r)) with
    | none =>
      rw [hhooks] at hsaved
      exact .unsaved r env cut rfl rw rw.dead hrun (sameRun_dead rw) rfl (Or.inr hsaved)
    | some hooked =>
      rw [hhooks] at hsaved
      exact hookedHop_cases hrun hcommit (stateHops_cases hhooks) hsaved rfl
  · rw [if_pos hsome] at hsaved
    dsimp only
    rw [if_pos hsome]
    cases cut with
    | none =>
      exact .unsaved r env none rfl rw { rw with graph := Graph.hop py env.ctx rw.graph } hrun
        ⟨hrunId, hlog, hnode, rfl, rfl, rfl⟩ rfl (Or.inr hsaved)
    | some cut =>
      exact .unsaved r env (some cut) rfl rw rw.dead hrun (sameRun_dead rw) rfl (Or.inr hsaved)

/-- The inversion lemma of the multi-round runs. -/
theorem step_cases {w w' : World} {l : Label} (h : (system py criteriaHash).step w l = some w') :
    StepKind py criteriaHash w l w' := by
  cases l with
  | start i task =>
    simp only [system, step] at h
    split at h
    · rename_i hall
      refine .started i task rfl (fun rw hrw => ?_) (Option.some.inj h).symm
      rw [hrw] at hall
      simpa using hall
    · cases h
  | hop r env cut =>
    simp only [system, step] at h
    split at h
    · cases h
    · rename_i rw hrun
      split at h
      · cases h
      · rename_i hguard
        have hhalted : rw.graph.halted = none := by
          rw [Bool.or_eq_true, not_or] at hguard
          simpa using hguard.2
        rw [← Option.some.inj h]
        exact hop_cases env cut hrun hhalted
  | resume r workdir =>
    simp only [system, step] at h
    split at h
    · cases h
    · rename_i rw hrun
      split at h
      · cases h
      · rename_i graph hgraph
        unfold Graph.resume at hgraph
        split at hgraph
        · cases hgraph
        · have hsame : SameRun rw { rw with graph, running := true } := by
            cases hgraph
            exact ⟨rfl, rfl, rfl, rfl, rfl, rfl⟩
          exact .resumed r workdir rfl rw _ hrun hsame (Option.some.inj h).symm

end Recertia.Mea
