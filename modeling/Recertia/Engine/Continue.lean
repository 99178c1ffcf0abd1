import Recertia.Engine.Frame

/-! When an execution that begins later and without the script of its run goes on as the run
would have gone on. -/
namespace Recertia.Graph

open FileTree (Tree Path)

/-- A context with the script of the request, and with what authoring finds under it. -/
def NodeContext.withScript (ctx : NodeContext) (script : Option (List String))
    (authored : Except NodeError Authored) : NodeContext :=
  { ctx with script, authored }

/-- `_author_or_reject` is reached: no gate of `distill` answers ahead of it. -/
def reachesAuthoring (s : RunState) : Bool :=
  !s.task.isEvalFixture && s.arm != .control && s.arm != .shadow &&
    !(usesSkill s && s.chosen.isSome) && !versionWriteExhausted s

/-- A node whose outcome the script of the run enters. -/
def scriptMatters (ctx : NodeContext) (node : Node) (s : RunState) : Bool :=
  match node with
  | .fanOut => (s.strategy == some .portfolio || s.strategy == some .decomposition) &&
      scriptOrTrue ctx != ["true"]
  | .solve =>
    if s.branches.any fun b => b.status == .dispatched then scriptOrTrue ctx != ["true"]
    else ctx.script.isSome && !(ctx.applicator && usesSkill s && s.chosen.isSome && ctx.store)
  | .distill => reachesAuthoring s && ctx.script.getD [] != []
  | _ => false

section Unread

variable (py : Platform) (ctx : NodeContext) {script : Option (List String)}
  {authored : Except NodeError Authored} (s : RunState) (t : Tree)

theorem scoreAll_unread (cs : List TaskCriterion) :
    scoreAll py (ctx.withScript script authored) t cs = scoreAll py ctx t cs := by
  induction cs with
  | nil => rfl
  | cons c cs ih =>
    have hc : scoreCriterion py (ctx.withScript script authored) t c
        = scoreCriterion py ctx t c := rfl
    rw [scoreAll, scoreAll, ih, hc]

theorem scoreCriteria_unread (cs : List TaskCriterion) :
    scoreCriteria py (ctx.withScript script authored) cs t = scoreCriteria py ctx cs t := by
  simp only [scoreCriteria, scoreAll_unread]

theorem fanInLevel_unread (exclude : List String) (level batchNo : ℕ)
    (groups : List (List (String × Path))) :
    fanInLevel (ctx.withScript script authored) exclude level batchNo groups t
      = fanInLevel ctx exclude level batchNo groups t := by
  induction groups generalizing batchNo t with
  | nil => rfl
  | cons group groups ih =>
    simp only [fanInLevel, ih]
    rfl

theorem fanInLevels_unread (exclude : List String) (width fuel level : ℕ)
    (sources : List (String × Path)) :
    fanInLevels (ctx.withScript script authored) exclude width fuel level sources t
      = fanInLevels ctx exclude width fuel level sources t := by
  induction fuel generalizing level sources t with
  | zero => rfl
  | succ fuel ih => simp only [fanInLevels, fanInLevel_unread, ih]

theorem validate_unread : validate py (ctx.withScript script authored) s t
    = validate py ctx s t := by
  simp only [validate, scoreCriteria_unread]

theorem materializeDecomposition_unread (branches : List BranchState) (layered : Bool) :
    materializeDecomposition (ctx.withScript script authored) branches layered t
      = materializeDecomposition ctx branches layered t := by
  simp only [materializeDecomposition, fanInLevels_unread]
  rfl

theorem join_unread : join py (ctx.withScript script authored) s t = join py ctx s t := by
  simp only [join, joinPortfolio, joinDecomposition, materializeDecomposition_unread,
    scoreCriteria_unread]

theorem runBranch_unread (h : scriptOrTrue (ctx.withScript script authored) = scriptOrTrue ctx)
    (b : BranchState) :
    runBranch py (ctx.withScript script authored) s b t = runBranch py ctx s b t := by
  have hrun (executed : ℕ) (commands : List String) (t : Tree) :
      runBranchScript (ctx.withScript script authored) b.branchId executed commands t
        = runBranchScript ctx b.branchId executed commands t := by
    induction commands generalizing executed t with
    | nil => rfl
    | cons command commands ih =>
      simp only [runBranchScript, ih]
      rfl
  simp only [runBranch, h, hrun, branchResults, scoreOwnedCriteria, scoreAll_unread]
  rfl

theorem solveBranches_unread (h : scriptOrTrue (ctx.withScript script authored) = scriptOrTrue ctx)
    (attemptNo : ℕ) : solveBranches py (ctx.withScript script authored) s attemptNo t
      = solveBranches py ctx s attemptNo t := by
  have hbranches (branches : List BranchState) (m : AttemptMeter) (attempts : ℕ) (t : Tree) :
      runBranches py (ctx.withScript script authored) s branches m attempts t
        = runBranches py ctx s branches m attempts t := by
    induction branches generalizing m attempts t with
    | nil => rfl
    | cons b bs ih => simp only [runBranches, runBranch_unread py ctx s _ h, ih]
  simp only [solveBranches, hbranches]
  rfl

theorem fanOut_unread (h : ¬ (s.strategy ≠ some .portfolio ∧ s.strategy ≠ some .decomposition) →
    scriptOrTrue (ctx.withScript script authored) = scriptOrTrue ctx) :
    fanOut (ctx.withScript script authored) s t = fanOut ctx s t := by
  unfold fanOut
  by_cases hsingle : s.strategy ≠ some .portfolio ∧ s.strategy ≠ some .decomposition
  · rw [if_pos hsingle, if_pos hsingle]
  · have hreserve (child : BudgetFields) :
        requestedPerBranch (ctx.withScript script authored) child
          = requestedPerBranch ctx child := by
      simp only [requestedPerBranch, h hsingle]
    simp only [if_neg hsingle, hreserve]

theorem distill_unread (h : reachesAuthoring s = true → authored = ctx.authored) :
    distill (ctx.withScript script authored) s t = distill ctx s t := by
  unfold distill
  cases hgate : (evalFirewall s t).or (armMustNotLearn s t) with
  | some blocked => rfl
  | none =>
    cases hlate : (existingSkillIsEvidence s t).or (versionWriteBudget s t) with
    | some blocked => rfl
    | none =>
      -- Only the last gate hands on to the authoring, which replays the script.
      have hauthors : reachesAuthoring s = true := by
        simp only [Option.or_eq_none_iff, evalFirewall, armMustNotLearn, existingSkillIsEvidence,
          versionWriteBudget, ite_eq_right_iff, reduceCtorEq, imp_false, not_or] at hgate hlate
        simp only [reachesAuthoring, usesSkill, hgate, hlate, bne_iff_ne, Bool.and_eq_true,
          Bool.not_eq_true']
        grind
      have hsame := h hauthors
      simp only [authorOrReject, distillSuccess, NodeContext.withScript, hsame]
      rfl

theorem solve_unread (hbranches : (s.branches.any fun b => b.status == .dispatched) = true →
      scriptOrTrue (ctx.withScript script authored) = scriptOrTrue ctx)
    (hscript : (s.branches.any fun b => b.status == .dispatched) = false →
      (ctx.applicator && usesSkill s && s.chosen.isSome && ctx.store) = false →
      ctx.withScript script authored = ctx) :
    solve py (ctx.withScript script authored) s t = solve py ctx s t := by
  by_cases hdispatched : (s.branches.any fun b => b.status == .dispatched) = true
  · have hpath (c : NodeContext) : solvePath c s = .ok .branches := by
      rw [solvePath, if_pos hdispatched]
    simp only [solve, hpath]
    exact solveBranches_unread py ctx s t (hbranches hdispatched) _
  · have hnone : (s.branches.any fun b => b.status == .dispatched) = false := by
      simpa using hdispatched
    by_cases happly : (ctx.applicator && usesSkill s && s.chosen.isSome && ctx.store) = true
    · have hpath (c : NodeContext) (ha : c.applicator = ctx.applicator) (hs : c.store = ctx.store) :
          solvePath c s = .ok .applicator := by
        rw [solvePath, if_neg hdispatched, ha, hs, if_pos happly]
      simp only [solve, hpath ctx rfl rfl, hpath (ctx.withScript script authored) rfl rfl]
      rfl
    · rw [hscript hnone (by simpa using happly)]

/-- A node that the script of the run does not enter has the same outcome without one. -/
theorem nodeFuncs_unread (node : Node) (snapshots : SnapshotStore)
    (hauthored : ctx.script.getD [] = [] → authored = ctx.authored)
    (h : scriptMatters ctx node s = false) :
    nodeFuncs py (ctx.withScript none authored) node snapshots s t
      = nodeFuncs py ctx node snapshots s t := by
  have hnone : scriptOrTrue (ctx.withScript none authored) = ["true"] := rfl
  -- Three nodes read the script; the others do not look at it.
  cases node with
  | fanOut =>
    apply fanOut_unread
    intro hfan
    have hstrategy :
        (s.strategy == some .portfolio || s.strategy == some .decomposition) = true := by
      simpa [or_iff_not_imp_left] using hfan
    have hplain : scriptOrTrue ctx = ["true"] := by
      simpa only [scriptMatters, hstrategy, Bool.true_and, bne_eq_false_iff_eq] using h
    rw [hnone, hplain]
  | solve =>
    apply solve_unread
    · intro hdispatched
      have hplain : scriptOrTrue ctx = ["true"] := by
        simpa only [scriptMatters, hdispatched, if_true, bne_eq_false_iff_eq] using h
      rw [hnone, hplain]
    · intro hdispatched happly
      have hscript : ctx.script = none := by
        simpa [scriptMatters, hdispatched, happly] using h
      have hsame := hauthored (by rw [hscript]; rfl)
      rw [NodeContext.withScript, hsame, ← hscript]
  | distill =>
    apply distill_unread
    intro hauthors
    apply hauthored
    simpa [scriptMatters, hauthors] using h
  | validate => exact validate_unread py ctx s t
  | join => exact join_unread py ctx s t
  | intake | retrieve | plan | classifyFailure | evolve | review | store | recordDeadEnd
  | rejectDraft | finalize => rfl

end Unread

/-- The world after `n` turns of the loop, where the run has not halted before. -/
def executeFrom (py : Platform) (ctxs : ℕ → NodeContext) (w : World) : ℕ → World
  | 0 => w
  | n + 1 =>
    let w' := executeFrom py ctxs w n
    if w'.halted.isSome then w' else hop py (ctxs n) w'

/-- The path that the next turn takes, if it comes to solving. -/
def nextPath (ctx : NodeContext) (w : World) : List (Except NodeError SolvePath) :=
  if w.halted = none ∧ w.node = .solve ∧ w.steps < maxGraphSteps then [solvePath ctx w.state]
  else []

/-- The solve paths of the first `n` turns. -/
def solvePaths (py : Platform) (ctxs : ℕ → NodeContext) (w : World) : ℕ →
    List (Except NodeError SolvePath)
  | 0 => []
  | n + 1 => solvePaths py ctxs w n ++ nextPath (ctxs n) (executeFrom py ctxs w n)

theorem executeFrom_halted {py : Platform} {ctxs : ℕ → NodeContext} {w : World} {n : ℕ}
    (h : (executeFrom py ctxs w n).halted.isSome = true) :
    executeFrom py ctxs w (n + 1) = executeFrom py ctxs w n := by
  rw [executeFrom, if_pos h]

theorem executeFrom_running {py : Platform} {ctxs : ℕ → NodeContext} {w : World} {n : ℕ}
    (h : (executeFrom py ctxs w n).halted = none) :
    executeFrom py ctxs w (n + 1) = hop py (ctxs n) (executeFrom py ctxs w n) := by
  rw [executeFrom, h]
  rfl

/-- The same world in an execution that began `d` hops later. -/
def World.rebased (d : ℕ) (w : World) : World := { w with steps := w.steps - d }

theorem settle_rebased {ctx : NodeContext} {w : World} {o : NodeOutcome} {d : ℕ}
    (hd : d ≤ w.steps) : settle ctx (w.rebased d) o = (settle ctx w o).rebased d := by
  have hsteps : w.steps - d + 1 = w.steps + 1 - d := by omega
  unfold settle
  split
  · rfl
  · by_cases hfinal : w.node = .finalize
    · have hfinal' : (w.rebased d).node = .finalize := hfinal
      rw [if_pos hfinal, if_pos hfinal']
      simp only [World.rebased, hsteps]
    · have hfinal' : (w.rebased d).node ≠ .finalize := hfinal
      rw [if_neg hfinal, if_neg hfinal']
      have hroute : chooseRoute (w.rebased d).node o = chooseRoute w.node o := rfl
      rw [hroute]
      cases chooseRoute w.node o with
      | none => rfl
      | some chosen =>
        simp only [commitHop, World.rebased, attemptNoForCtx, hsteps]
        rfl

/-- A hop does not depend on when its execution began, but for the safety valve. -/
theorem hop_rebased {py : Platform} {ctx : NodeContext} {w : World} {d : ℕ} (hd : d ≤ w.steps)
    (hvalve : w.steps + 1 ≤ maxGraphSteps) :
    hop py ctx (w.rebased d) = (hop py ctx w).rebased d := by
  have hlater : ¬ maxGraphSteps < (w.rebased d).steps + 1 := by
    simp only [World.rebased]
    omega
  have hnode : nodeFuncs py ctx (w.rebased d).node (w.rebased d).snapshots (w.rebased d).state
      (w.rebased d).workdir = nodeFuncs py ctx w.node w.snapshots w.state w.workdir := rfl
  rw [hop, hop, if_neg hlater, if_neg (by omega), hnode]
  cases nodeFuncs py ctx w.node w.snapshots w.state w.workdir with
  | error e => rfl
  | ok o => exact settle_rebased hd

/-- A hop that leaves the run going has committed a checkpoint. -/
theorem hop_committed {py : Platform} {ctx : NodeContext} {w : World} (hrunning : w.halted = none)
    (h : (hop py ctx w).halted = none) :
    (hop py ctx w).steps = w.steps + 1 ∧ (hop py ctx w).state.routeLog ≠ [] := by
  have hstep : (engine py).step w (.hop ctx) = some (hop py ctx w) := by
    simp [engine, hrunning]
  rcases step_cases hstep with ⟨_, hlabel, -, -, -⟩ | ⟨_, e, -, -, hnext⟩ | ⟨_, -, -, -, hnext⟩ |
    ⟨_, o, r, -, -, -, -, -, -, hnext⟩
  · cases hlabel
  · rw [hnext] at h
    cases h
  · rw [hnext] at h
    cases h
  · obtain ⟨snapshots, hstate⟩ := commitHop_state _ w o r
    rw [hnext, hstate]
    exact ⟨rfl, by simp⟩

theorem executeFrom_earlier {py : Platform} {ctxs : ℕ → NodeContext} {w : World} {n : ℕ}
    (h : (executeFrom py ctxs w (n + 1)).halted = none) :
    (executeFrom py ctxs w n).halted = none := by
  by_contra hhalted
  have hsome : (executeFrom py ctxs w n).halted.isSome = true :=
    Option.isSome_iff_ne_none.mpr hhalted
  rw [executeFrom_halted hsome] at h
  exact hhalted h

/-- A run that is still going has made all its hops, and has a checkpoint after the first. -/
theorem executeFrom_committed {py : Platform} {ctxs : ℕ → NodeContext} {w : World} {n : ℕ}
    (h : (executeFrom py ctxs w n).halted = none) :
    (executeFrom py ctxs w n).steps = w.steps + n ∧
      (0 < n → (executeFrom py ctxs w n).state.routeLog ≠ []) := by
  induction n with
  | zero => exact ⟨rfl, fun hn => absurd hn (lt_irrefl 0)⟩
  | succ n ih =>
    have hrunning := executeFrom_earlier h
    have hsteps := (ih hrunning).1
    rw [executeFrom_running hrunning] at h ⊢
    have hhop := hop_committed hrunning h
    exact ⟨by omega, fun _ => hhop.2⟩

theorem executeFrom_add (py : Platform) (ctxs : ℕ → NodeContext) (w : World) (k n : ℕ) :
    executeFrom py ctxs w (k + n)
      = executeFrom py (fun j => ctxs (k + j)) (executeFrom py ctxs w k) n := by
  induction n with
  | zero => rfl
  | succ n ih =>
    rw [← Nat.add_assoc, executeFrom, executeFrom, ih]

theorem solvePaths_add (py : Platform) (ctxs : ℕ → NodeContext) (w : World) (k n : ℕ) :
    solvePaths py ctxs w (k + n) = solvePaths py ctxs w k
      ++ solvePaths py (fun j => ctxs (k + j)) (executeFrom py ctxs w k) n := by
  induction n with
  | zero => simp [solvePaths]
  | succ n ih =>
    rw [← Nat.add_assoc, solvePaths, solvePaths, ih, executeFrom_add, List.append_assoc]

/-- No hop of a run comes to something that its script enters. -/
def ScriptUnread (py : Platform) (ctxs : ℕ → NodeContext) (w : World) : Prop :=
  ∀ n, let now := executeFrom py ctxs w n
    now.halted = none → scriptMatters (ctxs n) now.node now.state = false

/-- The run is not stopped by the safety valve. -/
def Unvalved (py : Platform) (ctxs : ℕ → NodeContext) (w : World) : Prop :=
  ∀ n, (executeFrom py ctxs w n).halted ≠ some (.raised .tooManySteps)

section Continued

variable {py : Platform} {ctxs : ℕ → NodeContext} {w : World}
  {authored : ℕ → Except NodeError Authored}

theorem Unvalved.steps_le (h : Unvalved py ctxs w) {n : ℕ}
    (hrunning : (executeFrom py ctxs w n).halted = none) :
    (executeFrom py ctxs w n).steps + 1 ≤ maxGraphSteps := by
  by_contra hvalve
  have hnext := h (n + 1)
  rw [executeFrom_running hrunning, hop, if_pos (not_le.mp hvalve)] at hnext
  exact hnext rfl

theorem hop_unread {ctx : NodeContext} {w : World} {found : Except NodeError Authored}
    (hauthored : ctx.script.getD [] = [] → found = ctx.authored)
    (h : scriptMatters ctx w.node w.state = false) :
    hop py (ctx.withScript none found) w = hop py ctx w := by
  rw [hop, hop, nodeFuncs_unread py ctx w.state w.workdir w.node w.snapshots hauthored h]
  rfl

/-- In an execution that began later and without the script the same hops follow. -/
theorem executeFrom_rebased {d : ℕ} (hd : d ≤ w.steps)
    (hauthored : ∀ n, (ctxs n).script.getD [] = [] → authored n = (ctxs n).authored)
    (hunread : ScriptUnread py ctxs w) (hvalve : Unvalved py ctxs w) (n : ℕ) :
    executeFrom py (fun j => (ctxs j).withScript none (authored j)) (w.rebased d) n
      = (executeFrom py ctxs w n).rebased d := by
  induction n with
  | zero => rfl
  | succ n ih =>
    rw [executeFrom, ih]
    cases hhalted : (executeFrom py ctxs w n).halted with
    | some halt =>
      have hsome : (executeFrom py ctxs w n).halted.isSome = true := by rw [hhalted]; rfl
      rw [executeFrom_halted hsome]
      exact if_pos hsome
    | none =>
      have hlater : d ≤ (executeFrom py ctxs w n).steps := by
        have hsteps := (executeFrom_committed hhalted).1
        omega
      have hrunning : ((executeFrom py ctxs w n).rebased d).halted.isSome = false := by
        show (executeFrom py ctxs w n).halted.isSome = false
        rw [hhalted]
        rfl
      rw [executeFrom_running hhalted, ← hop_rebased hlater (hvalve.steps_le hhalted)]
      simp only [hrunning, Bool.false_eq_true, if_false]
      exact hop_unread (hauthored n) (hunread n hhalted)

/-- The path is decided as it was, too. -/
theorem solvePath_unread {ctx : NodeContext} {s : RunState} {found : Except NodeError Authored}
    (hauthored : ctx.script.getD [] = [] → found = ctx.authored)
    (h : scriptMatters ctx .solve s = false) :
    solvePath (ctx.withScript none found) s = solvePath ctx s := by
  by_cases hdispatched : (s.branches.any fun b => b.status == .dispatched) = true
  · rw [solvePath, solvePath, if_pos hdispatched, if_pos hdispatched]
  · by_cases happly : (ctx.applicator && usesSkill s && s.chosen.isSome && ctx.store) = true
    · have happly' : ((ctx.withScript none found).applicator && usesSkill s && s.chosen.isSome &&
          (ctx.withScript none found).store) = true := happly
      rw [solvePath, solvePath, if_neg hdispatched, if_neg hdispatched, if_pos happly,
        if_pos happly']
    · have hscript : ctx.script = none := by
        simpa [scriptMatters, hdispatched, happly] using h
      have hsame := hauthored (by rw [hscript]; rfl)
      rw [NodeContext.withScript, hsame, ← hscript]

theorem solvePaths_rebased {d : ℕ} (hd : d ≤ w.steps)
    (hauthored : ∀ n, (ctxs n).script.getD [] = [] → authored n = (ctxs n).authored)
    (hunread : ScriptUnread py ctxs w) (hvalve : Unvalved py ctxs w) (n : ℕ) :
    solvePaths py (fun j => (ctxs j).withScript none (authored j)) (w.rebased d) n
      = solvePaths py ctxs w n := by
  induction n with
  | zero => rfl
  | succ n ih =>
    have hnext : nextPath ((ctxs n).withScript none (authored n))
        ((executeFrom py ctxs w n).rebased d) = nextPath (ctxs n) (executeFrom py ctxs w n) := by
      unfold nextPath
      by_cases hsolve : (executeFrom py ctxs w n).halted = none ∧
          (executeFrom py ctxs w n).node = .solve
      · obtain ⟨hhalted, hnode⟩ := hsolve
        have hsteps := hvalve.steps_le hhalted
        have hmatters := hunread n hhalted
        rw [hnode] at hmatters
        have hlater : ((executeFrom py ctxs w n).rebased d).steps < maxGraphSteps := by
          simp only [World.rebased]
          omega
        rw [if_pos ⟨hhalted, hnode, hlater⟩, if_pos ⟨hhalted, hnode, by omega⟩]
        exact congrArg (fun path => [path]) (solvePath_unread (hauthored n) hmatters)
      · rw [if_neg fun h => hsolve ⟨h.1, h.2.1⟩, if_neg fun h => hsolve ⟨h.1, h.2.1⟩]
    rw [solvePaths, solvePaths, ih, executeFrom_rebased hd hauthored hunread hvalve, hnext]

theorem scriptUnread_of_none (h : ∀ n, (ctxs n).script = none) : ScriptUnread py ctxs w := by
  intro n now _
  have hplain : scriptOrTrue (ctxs n) = ["true"] := by rw [scriptOrTrue, h n]
  unfold scriptMatters
  split <;> simp [hplain, h n]

theorem executeFrom_stays {n : ℕ} (h : (executeFrom py ctxs w n).halted.isSome = true) (m : ℕ) :
    executeFrom py ctxs w (n + m) = executeFrom py ctxs w n := by
  induction m with
  | zero => rfl
  | succ m ih =>
    rw [← Nat.add_assoc, executeFrom_halted, ih]
    rw [ih]
    exact h

/-- A run that has halted otherwise is not stopped by the valve. -/
theorem unvalved_of_halted {N : ℕ} {halt : Halt} (h : (executeFrom py ctxs w N).halted = some halt)
    (hhalt : halt ≠ .raised .tooManySteps) : Unvalved py ctxs w := by
  intro n hvalve
  rcases le_total n N with hle | hle
  · obtain ⟨m, rfl⟩ := Nat.exists_eq_add_of_le hle
    rw [executeFrom_stays (by rw [hvalve]; rfl), hvalve] at h
    exact hhalt (Option.some.inj h).symm
  · obtain ⟨m, rfl⟩ := Nat.exists_eq_add_of_le hle
    rw [executeFrom_stays (by rw [h]; rfl), h] at hvalve
    exact hhalt (Option.some.inj hvalve)

end Continued

end Recertia.Graph
