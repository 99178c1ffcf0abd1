import Recertia.Engine.Honest
import Recertia.Mea.StepSpec

/-! The audited state of a run against the deltas among its committed events: the sidecar is
their fold in every state of a run exactly when no hop is cut behind its save, and no two runs
share a sidecar. -/
namespace Recertia.Mea

open Graph (Platform TaskCriterion)
open Transition

variable {py : Platform} {criteriaHash : List TaskCriterion → String}

def Active (w : World) (r : RunId) : Prop := ∃ rw, w.runs r = some rw ∧ rw.meaActive = true

/-- The sidecar of a multi-round run is the state that its committed deltas lead to. -/
def Recoverable (w : World) (r : RunId) : Prop :=
  ∀ rw, w.runs r = some rw → rw.meaActive = true →
    ∃ v0 s, rw.created = some v0 ∧ foldDeltas v0 rw.deltas = .ok s ∧
      w.sidecars (pathFor r) = .saved s

def Sidecar.rounds : Sidecar → ℕ
  | .saved s => s.roundsConsumed
  | _ => 0

/-- The number of the hop that a run is in. -/
def hopNo (w : World) (r : RunId) : ℕ :=
  match w.runs r with
  | none => 0
  | some rw => rw.graph.state.routeLog.length

/-- The rounds that each hop of each run has consumed so far, over all its executions. -/
def seeRounds (w : World) (l : Label) (w' : World) (rounds : RunId → ℕ → ℕ) : RunId → ℕ → ℕ :=
  match l with
  | .hop r _ _ =>
    let consumed := (w'.sidecars (pathFor r)).rounds - (w.sidecars (pathFor r)).rounds
    Function.update rounds r
      (Function.update (rounds r) (hopNo w r) (rounds r (hopNo w r) + consumed))
  | _ => rounds

/-- Every sidecar is recoverable, and no hop has consumed two rounds. -/
def Intact (m : World × (RunId → ℕ → ℕ)) : Prop :=
  (∀ r, Recoverable m.1 r) ∧ ∀ r n, m.2 r n ≤ 1

/-- A hop gets as far as writing the sidecar, and then either its commit does not follow although
the run is a multi-round one already, or the file is that of another multi-round run. -/
def Spoils (py : Platform) (criteriaHash : List TaskCriterion → String) (w : World) (l : Label) :
    Prop :=
  ∃ r env cut, l = .hop r env cut ∧ cut ≠ some .beforeSave ∧
    (savedBy py criteriaHash w r env).isSome = true ∧
    ((Active w r ∧ cut ≠ none) ∨ ∃ r', r' ≠ r ∧ pathFor r' = pathFor r ∧ Active w r')

/-- What a run keeps of its identity and its beginning. -/
structure RunInv (r : RunId) (rw : RunWorld) : Prop where
  runId : rw.graph.state.runId = r
  intake : rw.graph.node = .intake ↔ rw.graph.state.routeLog = []
  unbound : rw.graph.state.routeLog = [] → rw.meaActive = false ∧ rw.deltas = []
  created : ∀ v0, rw.created = some v0 → v0.stateId = "ats_" ++ r

theorem RunInv.same {r : RunId} {rw rw' : RunWorld} (h : RunInv r rw) (hsame : SameRun rw rw') :
    RunInv r rw' where
  runId := hsame.runId.trans h.runId
  intake := by
    rw [hsame.node, hsame.routeLog]
    exact h.intake
  unbound := by
    rw [hsame.routeLog, hsame.meaActive, hsame.deltas]
    exact h.unbound
  created := by
    rw [hsame.created]
    exact h.created

theorem RunInv.start (i : Graph.Start) (task : MeaTask) :
    RunInv i.runId { graph := Graph.start i, task } where
  runId := rfl
  intake := ⟨fun _ => rfl, fun _ => rfl⟩
  unbound := fun _ => ⟨rfl, rfl⟩
  created := fun _ h => nomatch h

theorem RunInv.ne_intake {r : RunId} {rw : RunWorld} (h : RunInv r rw)
    (hactive : rw.meaActive = true) : rw.graph.node ≠ .intake := by
  intro hnode
  have hunbound := (h.unbound (h.intake.mp hnode)).1
  rw [hactive] at hunbound
  cases hunbound

theorem RunInv.commit {r : RunId} {env : HopEnv} {rw : RunWorld} {graph : Graph.World}
    {sidecar : Sidecar} {hooked : Hooked} (h : RunInv r rw) (hcommit : GraphCommit rw.graph graph)
    (hhooks : HookKind criteriaHash env rw graph sidecar hooked) :
    RunInv r (commitHop rw graph hooked) := by
  obtain ⟨entry, hlog⟩ := hcommit.routeLog
  have hnonempty : graph.state.routeLog ≠ [] := by
    rw [hlog]
    exact List.append_ne_nil_of_right_ne_nil _ (List.cons_ne_nil _ _)
  refine ⟨hcommit.runId.trans h.runId, ?_, ?_, ?_⟩
  · exact ⟨fun hnode => absurd hnode hcommit.node, fun hempty => absurd hempty hnonempty⟩
  · exact fun hempty => absurd hempty hnonempty
  · intro v0 hv0
    simp only [commitHop] at hv0
    split at hv0
    · rename_i hnode
      rcases hhooks with ⟨hsave, -⟩ | ⟨-, hsave, -⟩ | ⟨hvalidate, -⟩
      · rw [hsave] at hv0
        cases hv0
      · rw [hsave] at hv0
        cases hv0
        simp only [createAuditedState, hcommit.runId, h.runId]
      · rw [hnode] at hvalidate
        cases hvalidate
    · exact h.created v0 hv0

/-- The state that a recoverable sidecar holds is the run's own. -/
theorem stateId_of_recoverable {w : World} {r : RunId} {rw : RunWorld} {s : AuditedTaskState}
    (h : Recoverable w r) (hinv : RunInv r rw) (hrun : w.runs r = some rw)
    (hactive : rw.meaActive = true) (hsaved : w.sidecars (pathFor r) = .saved s) :
    s.stateId = "ats_" ++ r := by
  obtain ⟨v0, s', hcreated, hfold, hsidecar⟩ := h rw hrun hactive
  rw [hsaved] at hsidecar
  cases hsidecar
  rw [foldDeltas_stateId hfold, hinv.created v0 hcreated]

theorem runId_of_stateId {r r' : RunId} (h : "ats_" ++ r = "ats_" ++ r') : r = r' := by
  have hlist := congrArg String.toList h
  simp only [String.toList_append, List.append_cancel_left_eq] at hlist
  exact String.toList_injective hlist

theorem recoverable_of_not_active {w : World} {r : RunId} (h : ¬ Active w r) : Recoverable w r :=
  fun rw hrun hactive => absurd ⟨rw, hrun, hactive⟩ h

theorem recoverable_congr {w w' : World} {r : RunId} (h : Recoverable w r)
    (hrun : w'.runs r = w.runs r)
    (hsidecar : w'.sidecars (pathFor r) = w.sidecars (pathFor r)) : Recoverable w' r := by
  intro rw hrw hactive
  rw [hrun] at hrw
  rw [hsidecar]
  exact h rw hrw hactive

theorem recoverable_setRun {w : World} {r : RunId} {rw rw' : RunWorld}
    (h : ∀ r, Recoverable w r) (hrun : w.runs r = some rw) (hsame : SameRun rw rw') (r' : RunId) :
    Recoverable (setRun w r rw') r' := by
  by_cases hr : r' = r
  · subst hr
    intro rw'' hrw'' hactive
    rw [setRun_runs_self] at hrw''
    cases hrw''
    rw [hsame.meaActive] at hactive
    rw [hsame.created, hsame.deltas]
    exact h r' rw hrun hactive
  · exact recoverable_congr (h r') (setRun_runs_of_ne w rw' hr) rfl

@[simp] theorem saveState_runs (w : World) (r : RunId) (save : Option AuditedTaskState) :
    (saveState w r save).runs = w.runs := by
  cases save <;> simp only [saveState, setSidecar_runs]

theorem saveState_sidecars (w : World) (r : RunId) (save : Option AuditedTaskState)
    (path : String) :
    (saveState w r save).sidecars path =
      if path = pathFor r then save.elim (w.sidecars path) Sidecar.saved else w.sidecars path := by
  cases save with
  | none => simp only [saveState, Option.elim_none, ite_self]
  | some s => simp only [saveState, setSidecar_sidecars, Option.elim_some]

/-- A step of one run leaves another one recoverable that does not share its sidecar. -/
theorem recoverable_elsewhere {w v : World} {r r' : RunId} {rw : RunWorld}
    (h : Recoverable w r') (hr : r' ≠ r) (hruns : v.runs = w.runs)
    (hsidecar : Active w r' → v.sidecars (pathFor r') = w.sidecars (pathFor r')) :
    Recoverable (setRun v r rw) r' := by
  have hrun : (setRun v r rw).runs r' = w.runs r' := by rw [setRun_runs_of_ne v rw hr, hruns]
  by_cases hactive : Active w r'
  · exact recoverable_congr h hrun (hsidecar hactive)
  · apply recoverable_of_not_active
    rintro ⟨rw', hrw', hon⟩
    exact hactive ⟨rw', hrun ▸ hrw', hon⟩

/-- A committed hop keeps its own run recoverable. -/
theorem recoverable_commit {w : World} {r : RunId} {env : HopEnv} {rw : RunWorld}
    {graph : Graph.World} {hooked : Hooked} (h : Recoverable w r) (hinv : RunInv r rw)
    (hrun : w.runs r = some rw)
    (hhooks : HookKind criteriaHash env rw graph (w.sidecars (pathFor r)) hooked) :
    Recoverable (setRun (saveState w r hooked.save) r (commitHop rw graph hooked)) r := by
  intro rw' hrw' hactive
  rw [setRun_runs_self] at hrw'
  cases hrw'
  rw [setRun_sidecars, saveState_sidecars, if_pos rfl]
  rcases hhooks with ⟨hsave, hdelta, hwas, -⟩ | ⟨hnode, hsave, hdelta, -⟩ |
    ⟨hnode, s, next, delta, hwas, hloaded, happlied, hsave, hdelta, -⟩
  · have hon : rw.meaActive = true := hwas hactive
    obtain ⟨v0, s, hcreated, hfold, hsidecar⟩ := h rw hrun hon
    refine ⟨v0, s, ?_, ?_, ?_⟩
    · simp only [commitHop, if_neg (hinv.ne_intake hon), hcreated]
    · simpa only [commitHop, hdelta, Option.toList_none, List.append_nil] using hfold
    · simpa only [hsave, Option.elim_none] using hsidecar
  · have hempty := (hinv.unbound (hinv.intake.mp hnode)).2
    let v0 := createAuditedState criteriaHash rw.task graph.state env.policy env.now
    refine ⟨v0, v0, ?_, ?_, by rw [hsave]; rfl⟩
    · simp only [commitHop, if_pos hnode, hsave, v0]
    · simp only [commitHop, hempty, hdelta, Option.toList_none, List.append_nil]
      rfl
  · obtain ⟨v0, s', hcreated, hfold, hsidecar⟩ := h rw hrun hwas
    rw [hloaded] at hsidecar
    cases hsidecar
    refine ⟨v0, next, ?_, ?_, by rw [hsave]; rfl⟩
    · simp only [commitHop, if_neg (hinv.ne_intake hwas), hcreated]
    · simp only [commitHop, hdelta, Option.toList_some]
      rw [foldDeltas_append hfold, happlied]

theorem runs_step {w w' : World} {l : Label} (h : ∀ r rw, w.runs r = some rw → RunInv r rw)
    (hstep : (system py criteriaHash).step w l = some w') :
    ∀ r rw, w'.runs r = some rw → RunInv r rw := by
  -- Every step sets one run.
  have hset {v : World} {r : RunId} {rw : RunWorld} (hv : v.runs = w.runs) (hnew : RunInv r rw) :
      ∀ r' rw', (setRun v r rw).runs r' = some rw' → RunInv r' rw' := by
    intro r' rw' hrw'
    by_cases hr : r' = r
    · subst hr
      rw [setRun_runs_self] at hrw'
      cases hrw'
      exact hnew
    · rw [setRun_runs_of_ne v rw hr, hv] at hrw'
      exact h r' rw' hrw'
  rcases step_cases hstep with ⟨i, task, -, -, rfl⟩ | ⟨r, -, -, rw, rw', hrun, hsame, rfl⟩ |
    ⟨r, -, -, -, rw, rw', hrun, hsame, rfl, -⟩ |
    ⟨r, env, -, rw, hrun, graph, hooked, hcommit, hhooks, -, rfl⟩ |
    ⟨r, -, -, -, rw, hrun, -, -, -, -, -, -, -, -, sidecar, -, rfl⟩
  · exact hset rfl (.start i task)
  · exact hset rfl ((h r rw hrun).same hsame)
  · exact hset rfl ((h r rw hrun).same hsame)
  · exact hset (saveState_runs ..) ((h r rw hrun).commit hcommit hhooks)
  · exact hset (setSidecar_runs ..) ((h r rw hrun).same (sameRun_dead rw))

theorem hopNo_eq {w : World} {r : RunId} {rw : RunWorld} (h : w.runs r = some rw) :
    hopNo w r = rw.graph.state.routeLog.length := by
  simp only [hopNo, h]

theorem hopNo_congr {w w' : World} {r : RunId} (h : w'.runs r = w.runs r) :
    hopNo w' r = hopNo w r := by
  simp only [hopNo, h]

theorem hopNo_setRun_same {w v : World} {r : RunId} {rw rw' : RunWorld}
    (hrun : w.runs r = some rw) (hlog : rw'.graph.state.routeLog = rw.graph.state.routeLog) :
    hopNo (setRun v r rw') r = hopNo w r := by
  rw [hopNo_eq (setRun_runs_self v r rw'), hopNo_eq hrun, hlog]

/-- What an execution of a hop of run `r` may do to the rounds. -/
structure Consumes (w w' : World) (r : RunId) : Prop where
  once : (w'.sidecars (pathFor r)).rounds - (w.sidecars (pathFor r)).rounds ≤ 1
  here : hopNo w' r = hopNo w r + 1 ∨ (hopNo w' r = hopNo w r ∧
    (w'.sidecars (pathFor r)).rounds - (w.sidecars (pathFor r)).rounds = 0)
  elsewhere : ∀ r', r' ≠ r → hopNo w' r' = hopNo w r'

/-- A hop that has not been executed has consumed no round, and one behind the last commit at
most one. -/
structure RoundsInv (w : World) (rounds : RunId → ℕ → ℕ) : Prop where
  once : ∀ r n, rounds r n ≤ 1
  ahead : ∀ r n, hopNo w r ≤ n → rounds r n = 0

theorem RoundsInv.hop {w w' : World} {rounds : RunId → ℕ → ℕ} {r : RunId} {env : HopEnv}
    {cut : Option Cut} (h : RoundsInv w rounds) (hconsumes : Consumes w w' r) :
    RoundsInv w' (seeRounds w (.hop r env cut) w' rounds) := by
  have honce := hconsumes.once
  have hhere := hconsumes.here
  have hzero := h.ahead r (hopNo w r) le_rfl
  simp only [seeRounds]
  generalize (w'.sidecars (pathFor r)).rounds - (w.sidecars (pathFor r)).rounds = consumed
    at honce hhere ⊢
  constructor
  · intro r' n
    by_cases hr : r' = r
    · subst hr
      rw [Function.update_self]
      by_cases hn : n = hopNo w r'
      · subst hn
        rw [Function.update_self]
        omega
      · rw [Function.update_of_ne hn]
        exact h.once r' n
    · rw [Function.update_of_ne hr]
      exact h.once r' n
  · intro r' n hn
    by_cases hr : r' = r
    · subst hr
      rw [Function.update_self]
      by_cases hhop : n = hopNo w r'
      · subst hhop
        rw [Function.update_self]
        omega
      · rw [Function.update_of_ne hhop]
        apply h.ahead
        omega
    · rw [Function.update_of_ne hr]
      rw [hconsumes.elsewhere r' hr] at hn
      exact h.ahead r' n hn

theorem RoundsInv.congr {w w' : World} {rounds : RunId → ℕ → ℕ} (h : RoundsInv w rounds)
    (hsame : ∀ r, hopNo w' r = hopNo w r) : RoundsInv w' rounds where
  once := h.once
  ahead := fun r n hn => h.ahead r n (hsame r ▸ hn)

theorem consumes_commit {w : World} {r : RunId} {env : HopEnv} {rw : RunWorld}
    {graph : Graph.World} {hooked : Hooked} (hrun : w.runs r = some rw)
    (hcommit : GraphCommit rw.graph graph)
    (hhooks : HookKind criteriaHash env rw graph (w.sidecars (pathFor r)) hooked) :
    Consumes w (setRun (saveState w r hooked.save) r (commitHop rw graph hooked)) r where
  once := by
    rw [setRun_sidecars, saveState_sidecars, if_pos rfl]
    rcases hhooks with ⟨hsave, -⟩ | ⟨-, hsave, -⟩ |
      ⟨-, s, next, delta, -, hloaded, happlied, hsave, -⟩
    · rw [hsave, Option.elim_none]
      omega
    · rw [hsave, Option.elim_some]
      have hnone : (Sidecar.saved (createAuditedState criteriaHash rw.task graph.state env.policy
        env.now)).rounds = 0 := rfl
      omega
    · rw [hsave, Option.elim_some, hloaded]
      have hrounds := (applyAuditorDelta_spec happlied).2.2.1
      simp only [Sidecar.rounds, hrounds]
      omega
  here := by
    left
    obtain ⟨entry, hlog⟩ := hcommit.routeLog
    have hafter : (commitHop rw graph hooked).graph.state.routeLog.length
        = rw.graph.state.routeLog.length + 1 := by
      simp only [commitHop, hlog, List.length_append, List.length_singleton]
    rw [hopNo_eq (setRun_runs_self ..), hopNo_eq hrun, hafter]
  elsewhere := fun r' hr => by
    apply hopNo_congr
    rw [setRun_runs_of_ne _ _ hr, saveState_runs]

theorem consumes_lost {w : World} {r : RunId} {env : HopEnv} {rw : RunWorld}
    {graph : Graph.World} {hooked : Hooked} {state : AuditedTaskState} {sidecar : Sidecar}
    (hrun : w.runs r = some rw) (hinactive : ¬ Active w r)
    (hhooks : HookKind criteriaHash env rw graph (w.sidecars (pathFor r)) hooked)
    (hsave : hooked.save = some state) (hwritten : sidecar = .torn ∨ sidecar = .saved state) :
    Consumes w (setRun (setSidecar w r sidecar) r rw.dead) r := by
  have hzero : sidecar.rounds = 0 := by
    rcases hwritten with rfl | rfl
    · rfl
    · rcases hhooks with ⟨hnone, -⟩ | ⟨-, hbound, -⟩ | ⟨-, s, next, delta, hon, -⟩
      · rw [hsave] at hnone
        cases hnone
      · rw [hsave] at hbound
        cases hbound
        rfl
      · exact absurd ⟨rw, hrun, hon⟩ hinactive
  have hnothing : ((setRun (setSidecar w r sidecar) r rw.dead).sidecars (pathFor r)).rounds
      - (w.sidecars (pathFor r)).rounds = 0 := by
    rw [setRun_sidecars, setSidecar_sidecars, if_pos rfl]
    omega
  refine ⟨by omega, Or.inr ⟨hopNo_setRun_same hrun rfl, hnothing⟩, fun r' hr => ?_⟩
  apply hopNo_congr
  rw [setRun_runs_of_ne _ _ hr, setSidecar_runs]

theorem consumes_unsaved {w : World} {r : RunId} {rw rw' : RunWorld} (hrun : w.runs r = some rw)
    (hsame : SameRun rw rw') : Consumes w (setRun w r rw') r where
  once := by
    rw [setRun_sidecars]
    omega
  here := by
    refine Or.inr ⟨hopNo_setRun_same hrun hsame.routeLog, ?_⟩
    rw [setRun_sidecars]
    omega
  elsewhere := fun _ hr => hopNo_congr (setRun_runs_of_ne w rw' hr)

theorem rounds_step {w w' : World} {l : Label} {rounds : RunId → ℕ → ℕ}
    (h : RoundsInv w rounds) (hstep : (system py criteriaHash).step w l = some w')
    (hclean : ¬ Spoils py criteriaHash w l) : RoundsInv w' (seeRounds w l w' rounds) := by
  rcases step_cases hstep with ⟨i, task, rfl, hunsaved, rfl⟩ |
    ⟨r, -, rfl, rw, rw', hrun, hsame, rfl⟩ |
    ⟨r, -, -, rfl, rw, rw', hrun, hsame, rfl, -⟩ |
    ⟨r, env, rfl, rw, hrun, graph, hooked, hcommit, hhooks, -, rfl⟩ |
    ⟨r, env, cut, rfl, rw, hrun, graph, hooked, -, hhooks, hlate, state, hsave, hsaved, sidecar,
      hwritten, rfl⟩
  · refine h.congr fun r => ?_
    by_cases hr : r = i.runId
    · subst hr
      rw [hopNo_eq (setRun_runs_self ..)]
      unfold hopNo
      split
      · rfl
      · rename_i rw hrw
        rw [hunsaved rw hrw]
        rfl
    · exact hopNo_congr (setRun_runs_of_ne _ _ hr)
  · refine h.congr fun r' => ?_
    by_cases hr : r' = r
    · subst hr
      exact hopNo_setRun_same hrun hsame.routeLog
    · exact hopNo_congr (setRun_runs_of_ne _ _ hr)
  · exact h.hop (consumes_unsaved hrun hsame)
  · exact h.hop (consumes_commit hrun hcommit hhooks)
  · have hinactive : ¬ Active w r := fun hactive => hclean
      ⟨r, env, some cut, rfl, fun heq => hlate (Option.some.inj heq), by rw [hsaved]; rfl,
        Or.inl ⟨hactive, by simp⟩⟩
    exact h.hop (consumes_lost hrun hinactive hhooks hsave hwritten)

/-- A step that does not spoil a sidecar keeps every run recoverable. -/
theorem recoverable_step {w w' : World} {l : Label}
    (hruns : ∀ r rw, w.runs r = some rw → RunInv r rw) (h : ∀ r, Recoverable w r)
    (hstep : (system py criteriaHash).step w l = some w') (hclean : ¬ Spoils py criteriaHash w l) :
    ∀ r, Recoverable w' r := by
  rcases step_cases hstep with ⟨i, task, -, -, rfl⟩ |
    ⟨r, -, -, rw, rw', hrun, hsame, rfl⟩ |
    ⟨r, -, -, -, rw, rw', hrun, hsame, rfl, -⟩ |
    ⟨r, env, rfl, rw, hrun, graph, hooked, hcommit, hhooks, hsaved, rfl⟩ |
    ⟨r, env, cut, rfl, rw, hrun, graph, hooked, -, hhooks, hlate, state, hsave, hsaved, sidecar,
      hwritten, rfl⟩
  · intro r
    by_cases hr : r = i.runId
    · subst hr
      intro rw hrw hactive
      rw [setRun_runs_self] at hrw
      cases hrw
      cases hactive
    · exact recoverable_congr (h r) (setRun_runs_of_ne _ _ hr) rfl
  · exact recoverable_setRun h hrun hsame
  · exact recoverable_setRun h hrun hsame
  · intro r'
    by_cases hr : r' = r
    · subst hr
      exact recoverable_commit (h r') (hruns r' rw hrun) hrun hhooks
    · apply recoverable_elsewhere (h r') hr (saveState_runs ..)
      intro hactive
      rw [saveState_sidecars]
      split
      · rename_i hpath
        cases hsave : hooked.save with
        | none => rfl
        | some state =>
          exact absurd ⟨r, env, none, rfl, by simp, by rw [hsaved, hsave]; rfl,
            Or.inr ⟨r', hr, hpath, hactive⟩⟩ hclean
      · rfl
  · have hreaches : some cut ≠ some Cut.beforeSave := fun heq => hlate (Option.some.inj heq)
    have hsome : (savedBy py criteriaHash w r env).isSome = true := by rw [hsaved]; rfl
    intro r'
    by_cases hr : r' = r
    · subst hr
      apply recoverable_of_not_active
      rintro ⟨rw', hrw', hon⟩
      rw [setRun_runs_self] at hrw'
      cases hrw'
      exact hclean ⟨r', env, some cut, rfl, hreaches, hsome, Or.inl ⟨⟨rw, hrun, hon⟩, by simp⟩⟩
    · apply recoverable_elsewhere (h r') hr (setSidecar_runs ..)
      intro hactive
      rw [setSidecar_sidecars, if_neg]
      intro hpath
      exact hclean ⟨r, env, some cut, rfl, hreaches, hsome, Or.inr ⟨r', hr, hpath, hactive⟩⟩

/-- What a hop that writes the sidecar of `r` leaves in it. -/
theorem written_of_saved {w w' : World} {r : RunId} {env : HopEnv} {cut : Option Cut}
    (hruns : ∀ r rw, w.runs r = some rw → RunInv r rw)
    (hstep : (system py criteriaHash).step w (.hop r env cut) = some w')
    (hcut : cut ≠ some .beforeSave)
    (hsome : (savedBy py criteriaHash w r env).isSome = true) :
    ∃ rw graph hooked state, w.runs r = some rw ∧ RunInv r rw ∧ GraphCommit rw.graph graph ∧
      HookKind criteriaHash env rw graph (w.sidecars (pathFor r)) hooked ∧
      hooked.save = some state ∧
      (w'.sidecars (pathFor r) = .torn ∨ w'.sidecars (pathFor r) = .saved state) ∧
      (cut ≠ none → w'.runs r = some rw.dead) ∧ ∀ r', r' ≠ r → w'.runs r' = w.runs r' := by
  rcases step_cases hstep with ⟨i, task, hl, -, -⟩ | ⟨r', workdir, hl, _, _, -, -, -⟩ |
    ⟨r, env, cut, hl, rw, rw', hrun, hsame, rfl, hnothing⟩ |
    ⟨r, env, hl, rw, hrun, graph, hooked, hcommit, hhooks, hsaved, rfl⟩ |
    ⟨r, env, cut, hl, rw, hrun, graph, hooked, hcommit, hhooks, hlate, state, hsave, hsaved,
      sidecar, hwritten, rfl⟩
  · cases hl
  · cases hl
  · cases hl
    rcases hnothing with hbefore | hnone
    · exact absurd hbefore hcut
    · rw [hnone] at hsome
      cases hsome
  · cases hl
    obtain ⟨state, hstate⟩ := Option.isSome_iff_exists.mp hsome
    have hsave : hooked.save = some state := hsaved.symm.trans hstate
    refine ⟨rw, graph, hooked, state, hrun, hruns r rw hrun, hcommit, hhooks, hsave,
      Or.inr ?_, fun h => absurd rfl h, fun r' hr => ?_⟩
    · rw [setRun_sidecars, saveState_sidecars, if_pos rfl, hsave, Option.elim_some]
    · rw [setRun_runs_of_ne _ _ hr, saveState_runs]
  · cases hl
    refine ⟨rw, graph, hooked, state, hrun, hruns r rw hrun, hcommit, hhooks, hsave, ?_,
      fun _ => setRun_runs_self .., fun r' hr => ?_⟩
    · rw [setRun_sidecars, setSidecar_sidecars, if_pos rfl]
      exact hwritten
    · rw [setRun_runs_of_ne _ _ hr, setSidecar_runs]

/-- A step between states that are recoverable has not spoilt a sidecar. -/
theorem not_spoils {w w' : World} {l : Label}
    (hruns : ∀ r rw, w.runs r = some rw → RunInv r rw) (hbefore : ∀ r, Recoverable w r)
    (hafter : ∀ r, Recoverable w' r) (hstep : (system py criteriaHash).step w l = some w') :
    ¬ Spoils py criteriaHash w l := by
  rintro ⟨r, env, cut, rfl, hcut, hsome, hspoilt⟩
  obtain ⟨rw, graph, hooked, state, hrun, hinv, hcommit, hhooks, hsave, hwritten, hdead, hothers⟩ :=
    written_of_saved hruns hstep hcut hsome
  rcases hspoilt with ⟨⟨rw', hrw', hon⟩, hnotnone⟩ | ⟨r', hr, hpath, rw', hrw', hon⟩
  · -- The fold is as before, and the sidecar is one version ahead of it or torn.
    rw [hrun] at hrw'
    cases hrw'
    obtain ⟨v0, s, hcreated, hfold, hsidecar⟩ := hbefore r rw hrun hon
    obtain ⟨v0', s', hcreated', hfold', hsidecar'⟩ := hafter r rw.dead (hdead hnotnone) hon
    have hv0 : v0 = v0' := Option.some.inj (hcreated.symm.trans hcreated')
    subst hv0
    have hs : s = s' := Except.ok.inj (hfold.symm.trans hfold')
    subst hs
    rcases hhooks with ⟨hnone, -⟩ | ⟨hnode, -⟩ |
      ⟨-, s0, next, delta, -, hloaded, happlied, hnext, -⟩
    · rw [hsave] at hnone
      cases hnone
    · exact hinv.ne_intake hon hnode
    · rw [hsave] at hnext
      cases hnext
      rw [hloaded] at hsidecar
      cases hsidecar
      have hversion := (applyAuditorDelta_spec happlied).2.1
      rcases hwritten with htorn | hsaved
      · rw [htorn] at hsidecar'
        cases hsidecar'
      · rw [hsaved] at hsidecar'
        cases hsidecar'
        omega
  · -- The sidecar now names the other run.
    have hrun' : w'.runs r' = some rw' := (hothers r' hr).trans hrw'
    have hinv' := hruns r' rw' hrw'
    obtain ⟨v0, s, -, -, hsidecar⟩ := hafter r' rw' hrun' hon
    have hid := stateId_of_recoverable (hafter r') hinv' hrun' hon hsidecar
    rw [hpath] at hsidecar
    rcases hwritten with htorn | hsaved
    · rw [htorn] at hsidecar
      cases hsidecar
    · rw [hsaved] at hsidecar
      cases hsidecar
      have hown : state.stateId = "ats_" ++ r := by
        rcases hhooks with ⟨hnone, -⟩ | ⟨-, hbound, -⟩ |
          ⟨-, s0, next, delta, hactive, hloaded, happlied, hnext, -⟩
        · rw [hsave] at hnone
          cases hnone
        · rw [hsave] at hbound
          cases hbound
          simp only [createAuditedState, hcommit.runId, hinv.runId]
        · rw [hsave] at hnext
          cases hnext
          rw [(applyAuditorDelta_spec happlied).2.2.2]
          exact stateId_of_recoverable (hbefore r) hinv hrun hactive hloaded
      exact hr (runId_of_stateId (hid.symm.trans hown))

/-- What every step keeps that does not spoil a sidecar. -/
structure Inv (m : World × (RunId → ℕ → ℕ)) : Prop where
  runs : ∀ r rw, m.1.runs r = some rw → RunInv r rw
  recoverable : ∀ r, Recoverable m.1 r
  rounds : RoundsInv m.1 m.2

theorem Inv.intact {m : World × (RunId → ℕ → ℕ)} (h : Inv m) : Intact m :=
  ⟨h.recoverable, h.rounds.once⟩

theorem Inv.step {m : World × (RunId → ℕ → ℕ)} {w' : World} {l : Label} (h : Inv m)
    (hstep : (system py criteriaHash).step m.1 l = some w')
    (hclean : ¬ Spoils py criteriaHash m.1 l) : Inv (w', seeRounds m.1 l w' m.2) where
  runs := runs_step h.runs hstep
  recoverable := recoverable_step h.runs h.recoverable hstep hclean
  rounds := rounds_step h.rounds hstep hclean

theorem Inv.fresh (sidecars : String → Sidecar) : Inv (fresh sidecars, fun _ _ => 0) where
  runs := fun _ _ h => nomatch h
  recoverable := fun _ _ h => nomatch h
  rounds := ⟨fun _ _ => Nat.zero_le _, fun _ _ _ => rfl⟩

theorem intact_along_iff {m : World × (RunId → ℕ → ℕ)} (h : Inv m) (ls : List Label) :
    ((system py criteriaHash).monitor seeRounds).Along (fun _ _ t => Intact t) m ls ↔
      (system py criteriaHash).Along (fun w l _ => ¬ Spoils py criteriaHash w l) m.1 ls := by
  induction ls generalizing m with
  | nil => exact Iff.rfl
  | cons l ls ih =>
    constructor
    · intro hintact w' hstep
      have hseen := hintact (w', seeRounds m.1 l w' m.2) (System.monitor_step.mpr ⟨hstep, rfl⟩)
      have hclean := not_spoils h.runs h.recoverable hseen.1.1 hstep
      exact ⟨hclean, (ih (h.step hstep hclean)).mp hseen.2⟩
    · intro hall t ht
      obtain ⟨w', rounds'⟩ := t
      obtain ⟨hstep, hrounds⟩ := System.monitor_step.mp ht
      dsimp only at hstep hrounds
      subst hrounds
      obtain ⟨hclean, hrest⟩ := hall w' hstep
      have hinv := h.step hstep hclean
      exact ⟨hinv.intact, (ih hinv).mpr hrest⟩

/-- In every run of any number of multi-round runs, with any crashes and resumes and whatever
sidecars an earlier start has left: every state is intact, so that each sidecar is the fold of the
committed deltas and no hop has consumed two rounds, exactly when no step spoils a sidecar. -/
theorem audited_state_recoverable_iff (py : Platform)
    (criteriaHash : List TaskCriterion → String) (sidecars : String → Sidecar)
    (ls : List Label) :
    ((system py criteriaHash).monitor seeRounds).Along (fun _ _ t => Intact t)
        (fresh sidecars, fun _ _ => 0) ls ↔
      (system py criteriaHash).Along (fun w l _ => ¬ Spoils py criteriaHash w l)
        (fresh sidecars) ls :=
  intact_along_iff (Inv.fresh sidecars) ls

/-- A goal whose one check looks for a file. -/
def outGoal : Graph.Goal where
  desired := [{ id := "out", check := .command "test -f out" 0 }]
  atLeastOneHardCriterion := by decide

def optedIn : MeaTask where
  taskId := "task"
  meaOptIn := true
  executionStrategy := .mea

def outStart : Graph.Start where
  runId := "run"
  task := { goal := some outGoal, requireGoalOrRequest := Or.inl rfl }

def enabledHop : HopEnv where
  ctx := Graph.scriptedHop
  policy := some { meaEnabled := true, meaMaxRounds := 12 }
  now := 0

/-- The process dies between the save of the first audit and the commit of its hop; the run is
resumed and executes `validate` again. -/
def cutValidate : List Label :=
  [.start outStart optedIn] ++ List.replicate 4 (.hop "run" enabledHop none) ++
    [.hop "run" enabledHop (some .afterSave), .resume "run" ∅, .hop "run" enabledHop none]

/-- The second execution audits on top of the first: `validate` consumes two rounds, and its
committed delta does not apply to the state that intake has saved. -/
theorem cut_validate_consumes_two_rounds :
    ∃ m, ((system Graph.plainPlatform fun _ => "sha256").monitor seeRounds).run
        (fresh fun _ => .absent, fun _ _ => 0) cutValidate = some m ∧
      m.2 "run" 4 = 2 ∧ ¬ Recoverable m.1 "run" ∧ ¬ Intact m := by
  have hrun : (((system Graph.plainPlatform fun _ => "sha256").monitor seeRounds).run
      (fresh fun _ => .absent, fun _ _ => 0) cutValidate).map (fun m => (m.2 "run" 4,
        (m.1.runs "run").map fun rw => (rw.meaActive,
          rw.created.map fun v0 => (foldDeltas v0 rw.deltas).isOk))) =
      some (2, some (true, some false)) := by decide +kernel
  obtain ⟨m, hm, hseen⟩ := Option.map_eq_some_iff.mp hrun
  rw [Prod.mk.injEq, Option.map_eq_some_iff] at hseen
  obtain ⟨hrounds, rw, hrw, hfields⟩ := hseen
  rw [Prod.mk.injEq, Option.map_eq_some_iff] at hfields
  obtain ⟨hactive, v0, hv0, hfails⟩ := hfields
  have hlost : ¬ Recoverable m.1 "run" := by
    intro h
    obtain ⟨v0', s, hcreated, hfold, -⟩ := h rw hrw hactive
    rw [hv0] at hcreated
    cases hcreated
    rw [hfold] at hfails
    cases hfails
  exact ⟨m, hm, hrounds, hlost, fun h => hlost (h.1 "run")⟩

end Recertia.Mea
