import Recertia.Engine.Frame

/-! Only honest runs are solved: the last verdict before a solved terminal passed every required,
proven criterion. -/
namespace Recertia.Graph

open FileTree (Tree)

/-- The hop of `validate` or `join` from `w` to `w'` scored a workdir afresh; it raised no signal,
and every required criterion with a binding proof was scored as passed. -/
structure PassedVerdict (py : Platform) (ctx : NodeContext) (w w' : World) : Prop where
  node : w.node = .validate ∨ w.node = .join
  noSignal : w'.state.failureSignal = none
  scored : List.Forall₂
    (fun c r => r.criterionId = c.id ∧ (effectivelyRequired py.evidenceHash c = true →
      scoreCriterion py ctx w'.workdir c = .ok r ∧ r.passed = true))
    w.state.criteria w'.state.results

/-- The step is not a verdict. -/
def NotVerdict (w : World) (l : Label) (_ : World) : Prop :=
  ∀ ctx, l = .hop ctx → w.node ≠ .validate ∧ w.node ≠ .join

/-- In the run of `ls` from `w₀` the last hop of `validate` or `join` was a passed verdict. -/
def LastVerdictPassed (py : Platform) (w₀ : World) (ls : List Label) : Prop :=
  ∃ pre ctx post w w', ls = pre ++ .hop ctx :: post ∧ (engine py).run w₀ pre = some w ∧
    (engine py).step w (.hop ctx) = some w' ∧ PassedVerdict py ctx w w' ∧
    (engine py).Along NotVerdict w' post

/-- The nodes after a passed verdict, up to a solved terminal. -/
def SolvedSide (w : World) : Prop :=
  w.node = .distill ∨ w.node = .review ∨ w.node = .store ∨
    (w.node = .finalize ∧ ∃ e, w.state.routeLog.getLast? = some e ∧
      (e.node = .distill ∨ e.node = .store))

theorem notVerdict_of_solvedSide {w w' : World} {l : Label} (h : SolvedSide w) :
    NotVerdict w l w' := by
  intro ctx _
  rcases h with h | h | h | ⟨h, -⟩ <;> rw [h] <;> decide

theorem source_of_target_distill : ∀ r ∈ routes, r.target = .distill →
    (r.source = .validate ∧ r.predicateName = .noBranchesAndPassing) ∨
    (r.source = .join ∧ r.predicateName = .mergeCompleteAndPassing) := by decide

theorem source_of_target_review : ∀ r ∈ routes, r.target = .review → r.source = .distill := by
  decide

theorem source_of_target_store : ∀ r ∈ routes, r.target = .store → r.source = .review := by decide

theorem scored_of_score {py : Platform} {ctx : NodeContext} {cs : List TaskCriterion} {t : Tree}
    {score : Score} (h : scoreCriteria py ctx cs t = .ok score)
    (hs : score.failureSignal = none) :
    List.Forall₂ (fun c r => r.criterionId = c.id ∧
      (effectivelyRequired py.evidenceHash c = true →
        scoreCriterion py ctx t c = .ok r ∧ r.passed = true)) cs score.results := by
  refine (score_recorded h hs).imp fun c r hr => ⟨hr.criterionId, fun heff => ?_⟩
  have hreq : c.isRequired = true := (Bool.and_eq_true_iff.mp heff).1
  exact ⟨hr.proven heff, hr.required hreq⟩

theorem passedVerdict_of_score {py : Platform} {ctx : NodeContext} {w : World} {o : NodeOutcome}
    {r : Route} {score : Score} (hnode : w.node = .validate ∨ w.node = .join)
    (hscore : scoreCriteria py ctx w.state.criteria o.workdir = .ok score)
    (hresults : o.state.results = score.results)
    (hsignal : o.state.failureSignal = score.failureSignal) (hnone : score.failureSignal = none) :
    PassedVerdict py ctx w (commitHop ctx w o r) := by
  obtain ⟨snapshots, hstate⟩ := commitHop_state ctx w o r
  refine ⟨hnode, ?_, ?_⟩
  · rw [hstate]
    exact hsignal.trans hnone
  · have hres : (commitHop ctx w o r).state.results = score.results := by
      rw [hstate]
      exact hresults
    rw [hres]
    exact scored_of_score hscore hnone

/-- `validate` routes to `distill` only after a passed verdict. -/
theorem validate_passed {py : Platform} {ctx : NodeContext} {w : World} {o : NodeOutcome}
    {r : Route} (hnode : w.node = .validate)
    (ho : nodeFuncs py ctx w.node w.snapshots w.state w.workdir = .ok o)
    (hname : o.route = some .noBranchesAndPassing) :
    PassedVerdict py ctx w (commitHop ctx w o r) := by
  rw [hnode] at ho
  obtain ⟨score, hscore, rfl⟩ := validate_spec ho
  have hnone : score.failureSignal = none := by
    by_cases hb : w.state.branches = [] <;> by_cases hf : score.failureSignal.isSome <;>
      simp_all
  exact passedVerdict_of_score (Or.inl hnode) hscore rfl rfl hnone

/-- `join` routes to `distill` only after a passed verdict. -/
theorem join_passed {py : Platform} {ctx : NodeContext} {w : World} {o : NodeOutcome}
    {r : Route} (hnode : w.node = .join)
    (ho : nodeFuncs py ctx w.node w.snapshots w.state w.workdir = .ok o)
    (hname : o.route = some .mergeCompleteAndPassing) :
    PassedVerdict py ctx w (commitHop ctx w o r) := by
  rw [hnode] at ho
  rcases join_spec ho with ⟨-, rfl⟩ | ⟨-, -, signal, rfl⟩ |
    ⟨-, workdir, score, winner, audit, -, hscore, -, rfl⟩
  · cases hname
  · cases hname
  · have hnone : score.failureSignal = none := by
      by_cases hf : score.failureSignal.isSome
      · simp [joinScored, hf] at hname
      · simpa using hf
    exact passedVerdict_of_score (Or.inr hnode) hscore rfl rfl hnone

theorem commitHop_routeLog {py : Platform} {ctx : NodeContext} {w : World} {o : NodeOutcome}
    {r : Route} (ho : nodeFuncs py ctx w.node w.snapshots w.state w.workdir = .ok o) :
    (commitHop ctx w o r).state.routeLog = w.state.routeLog ++
      [{ node := w.node, route := r.predicateName, attemptNo := attemptNoForCtx w }] := by
  obtain ⟨snapshots, hstate⟩ := commitHop_state ctx w o r
  rw [hstate, ← (nodeFuncs_frame ho).routeLog]

/-- The solved side is entered by a passed verdict only. -/
theorem solvedSide_step {py : Platform} {w w' : World} {l : Label}
    (h : (engine py).step w l = some w') (hs : SolvedSide w') :
    (∃ ctx, l = .hop ctx ∧ PassedVerdict py ctx w w') ∨ (SolvedSide w ∧ NotVerdict w l w') := by
  have hstay (hw : SolvedSide w) : (∃ ctx, l = .hop ctx ∧ PassedVerdict py ctx w w') ∨
      (SolvedSide w ∧ NotVerdict w l w') := Or.inr ⟨hw, notVerdict_of_solvedSide hw⟩
  rcases step_cases h with ⟨workdir, -, -, -, rfl⟩ | ⟨ctx, e, -, -, rfl⟩ |
    ⟨ctx, -, -, -, rfl⟩ | ⟨ctx, o, r, rfl, -, -, ho, -, hr, rfl⟩
  · exact hstay hs
  · exact hstay hs
  · exact hstay hs
  · rcases hs with htarget | htarget | htarget | ⟨htarget, e, he, hprev⟩
    · rcases source_of_target_distill r hr.mem htarget with ⟨hsource, hname⟩ | ⟨hsource, hname⟩
      · exact Or.inl ⟨ctx, rfl,
          validate_passed (hr.source.symm.trans hsource) ho (hr.name.trans (by rw [hname]))⟩
      · exact Or.inl ⟨ctx, rfl,
          join_passed (hr.source.symm.trans hsource) ho (hr.name.trans (by rw [hname]))⟩
    · exact hstay (Or.inl (hr.source.symm.trans (source_of_target_review r hr.mem htarget)))
    · exact hstay
        (Or.inr (Or.inl (hr.source.symm.trans (source_of_target_store r hr.mem htarget))))
    · -- The last entry of the log is the node that routed to `finalize`.
      rw [commitHop_routeLog ho, List.getLast?_concat] at he
      cases he
      rcases hprev with hprev | hprev
      · exact hstay (Or.inl hprev)
      · exact hstay (Or.inr (Or.inr (Or.inl hprev)))

/-- A solved terminal is set on the solved side only. -/
theorem solvedSide_of_solved_step {py : Platform} {w w' : World} {l : Label}
    (hw : w.state.terminal = some .solved → w.node = .finalize ∧ SolvedSide w)
    (h : (engine py).step w l = some w') :
    w'.state.terminal = some .solved → w'.node = .finalize ∧ SolvedSide w' := by
  rcases step_cases h with ⟨workdir, -, -, -, rfl⟩ | ⟨ctx, e, -, -, rfl⟩ |
    ⟨ctx, -, -, hnode, rfl⟩ | ⟨ctx, o, r, -, -, hnode, ho, -, -, rfl⟩
  · exact hw
  · exact hw
  · intro hterminal
    refine ⟨hnode, Or.inr (Or.inr (Or.inr ⟨hnode, ?_⟩))⟩
    simp only [finalize, Option.some.injEq] at hterminal
    split at hterminal
    · cases hterminal
    · rename_i e he
      refine ⟨e, he, ?_⟩
      cases hn : e.node <;> simp [terminalByPredecessor, hn] at hterminal ⊢
  · intro hterminal
    obtain ⟨snapshots, hstate⟩ := commitHop_state ctx w o r
    rw [hstate] at hterminal
    have hsame : w.state.terminal = some .solved := by
      rw [← (nodeFuncs_frame ho).terminal hnode]
      exact hterminal
    exact (hnode (hw hsame).1).elim

/-- For every run from `intake`: on the way from `distill` to a solved terminal, the last verdict
passed. -/
theorem lastVerdictPassed_of_solvedSide {py : Platform} {i : Start} {ls : List Label} {w : World}
    (h : (engine py).run (start i) ls = some w) (hs : SolvedSide w) :
    LastVerdictPassed py (start i) ls := by
  have hstart : ¬ SolvedSide (start i) := by
    intro hstart
    rcases hstart with h | h | h | ⟨h, -⟩ <;> cases h
  obtain ⟨pre, l, post, v, v', hls, hpre, hstep, ⟨ctx, rfl, hpassed⟩, -, hrest⟩ :=
    Transition.System.last_entry (fun s l t => solvedSide_step) hstart h hs
  exact ⟨pre, ctx, post, v, v', hls, hpre, hstep, hpassed, hrest⟩

/-- Only honest runs are solved, and only they reach `distill`. -/
theorem solved_runs_honest (py : Platform) (i : Start) (ls : List Label) (w : World)
    (h : (engine py).run (start i) ls = some w)
    (hs : w.state.terminal = some .solved ∨ w.node = .distill) :
    LastVerdictPassed py (start i) ls := by
  rcases hs with hsolved | hdistill
  · have hside := Transition.System.run_invariant (T := engine py)
      (I := fun w => w.state.terminal = some .solved → w.node = .finalize ∧ SolvedSide w)
      (fun s l t hI hstep => solvedSide_of_solved_step hI hstep)
      (fun hnone => by cases hnone) h
    exact lastVerdictPassed_of_solvedSide h (hside hsolved).2
  · exact lastVerdictPassed_of_solvedSide h (Or.inl hdistill)

/-- A platform whose evidence hash is the id with the fingerprint. -/
def plainPlatform : Platform where
  repr s := "'" ++ s ++ "'"
  isAlpha := Char.isAlpha
  evidenceHash c fingerprint := c.id ++ fingerprint

def commandCriterion (id : String) : TaskCriterion := { id, check := .command "test -f out" 0 }

def provenCriterion (id : String) : TaskCriterion :=
  { commandCriterion id with sensitivityProof := some {
      criterionId := id
      negativeFixture := "empty"
      rejected := true
      checkedAgainst := some "sha256:none"
      evidenceHash := some (id ++ "none") } }

def requestTask (request : String) (h : Text.strip request ≠ "") : Task :=
  { request := some request, requireGoalOrRequest := Or.inr ⟨request, rfl, h⟩ }

def scriptedStart : Start :=
  { runId := "run"
    task := requestTask "write out" (by decide +kernel)
    criteria := [provenCriterion "out"] }

def scriptedHop : NodeContext := { script := some ["touch out"] }

theorem solved_runs_honest_scripted :
    ∃ w, (engine plainPlatform).run (start scriptedStart)
        (List.replicate 7 (.hop scriptedHop)) = some w ∧
      w.state.terminal = some .solved ∧
      LastVerdictPassed plainPlatform (start scriptedStart)
        (List.replicate 7 (.hop scriptedHop)) := by
  have hrun : ((engine plainPlatform).run (start scriptedStart)
      (List.replicate 7 (.hop scriptedHop))).map (fun w => w.state.terminal) =
        some (some .solved) := by decide +kernel
  obtain ⟨w, hw, hterminal⟩ := Option.map_eq_some_iff.mp hrun
  exact ⟨w, hw, hterminal, solved_runs_honest _ _ _ w hw (Or.inl hterminal)⟩

end Recertia.Graph
