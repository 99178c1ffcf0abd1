import Recertia.Lib.Fallible
import Recertia.Node.Context

/-! `intake`, `retrieve` and `plan`: lock the criteria, query the memory, choose a strategy. -/
namespace Recertia.Graph

open FileTree (Tree)

def sealedCriterion (c : Constraint) (run : String) : TaskCriterion :=
  { id := c.id, check := .command run 0, weight := c.weight, timeoutS := 300, source := .caller }

def sealConstraint (py : Platform) (ctx : NodeContext) (c : Constraint) :
    Except NodeError TaskCriterion :=
  match c.value.paths? with
  | none => .error (.valueError
      ("must_not_modify " ++ py.repr c.id ++ " requires str or list[str]"))
  | some paths => do
    let run ← ctx.freezeScript paths
    return sealedCriterion c run

/-- Replaces placeholder freeze checks with digest-sealed command criteria. `by_id` maps an id to
the last entry written under it. -/
def sealMustNotModifyCriteria (py : Platform) (ctx : NodeContext) (goal : Goal)
    (criteria : List TaskCriterion) : Except NodeError (List TaskCriterion) := do
  let freezes := goal.constraints.filter fun c => c.kind == .mustNotModify
  if freezes = [] then return criteria
  let sealed ← freezes.mapM (sealConstraint py ctx)
  let byId (id : String) : Option TaskCriterion :=
    (criteria ++ sealed).reverse.find? fun c => c.id == id
  let unseen := freezes.filter fun f => !criteria.any fun c => c.id == f.id
  return criteria.map (fun c => (byId c.id).getD c) ++ unseen.filterMap fun f => byId f.id

/-- Runs the criterion against the negative fixture. -/
def authorSensitivityProof (py : Platform) (ctx : NodeContext) (c : TaskCriterion) :
    SensitivityProof :=
  let (passed, fingerprint) := ctx.negativeRun c
  -- A judge cannot author a mechanical proof: it counts as not rejected.
  { criterionId := c.id
    negativeFixture := ctx.negativeFixture
    rejected := c.kind != .judge && !passed
    checkedAgainst := some ("sha256:" ++ fingerprint)
    evidenceHash := some (py.evidenceHash c.toCriterionFields fingerprint) }

def refineGoalCriteria (py : Platform) (ctx : NodeContext) (criteria : List TaskCriterion) :
    List TaskCriterion :=
  criteria.map fun c =>
    if c.isRequired && c.sensitivityProof.isNone then
      { c with sensitivityProof := some (authorSensitivityProof py ctx c) }
    else c

def guessCheck (request : String) : String :=
  let lower := Text.lower request
  if Text.contains lower "output.txt" then "test -f output.txt"
  else if Text.contains lower ".gitignore" then "test -f .gitignore"
  else if Text.contains lower "readme" then "test -f README.md"
  else if Text.contains lower "editorconfig" then "test -f .editorconfig"
  else "test -n \"$(ls -A . 2>/dev/null)\""

def proposeCriteria (py : Platform) (ctx : NodeContext) (request : String) : List TaskCriterion :=
  let criterion : TaskCriterion :=
    { id := "critic-primary", check := .command (guessCheck request) 0, source := .critic }
  [{ criterion with sensitivityProof := some (authorSensitivityProof py ctx criterion) }]

/-- The criteria to lock: a goal's, else the caller's, else the critic's. -/
def criteriaToLock (py : Platform) (ctx : NodeContext) (s : RunState) :
    Except NodeError (List TaskCriterion) :=
  match s.task.goal with
  | some goal => do
    let compiled ← compileGoal py .caller goal
    let sealed ← sealMustNotModifyCriteria py ctx goal compiled
    return refineGoalCriteria py ctx sealed
  | none =>
    if s.criteria = [] then .ok (proposeCriteria py ctx (s.task.request.getD ""))
    else .ok s.criteria

def clampToCeiling (ctx : NodeContext) (criteria : List TaskCriterion) : List TaskCriterion :=
  match ctx.maxCriterionTimeoutS with
  | none => criteria
  | some ceilingS => clampCriterionTimeouts ceilingS criteria

def intake (py : Platform) (ctx : NodeContext) (s : RunState) (t : Tree) :
    Except NodeError NodeOutcome := do
  let criteria ← criteriaToLock py ctx s
  return {
    state := { s with criteria := clampToCeiling ctx criteria }
    route := some .always
    workdir := t }

def retrieve (ctx : NodeContext) (s : RunState) (t : Tree) : NodeOutcome :=
  { state := { s with bundle :=
      if s.arm = .control then { suppressed := true } else { skills := ctx.retrieved } }
    route := some .always
    workdir := t }

def applyThreshold : ℚ := 48 / 100

def adaptThreshold : ℚ := 35 / 100

/-- The top two scores within this gap make a portfolio. -/
def portfolioGap : ℚ := 8 / 100

def roundRobin {α : Type*} (parts : ℕ) (xs : List α) : List (List α) :=
  (List.range parts).map fun k => (xs.zipIdx.filter fun x => x.2 % parts == k).map Prod.fst

/-- `max_parts or 2` -/
def partBound : Option ℕ → ℕ
  | none => 2
  | some n => if n = 0 then 2 else n

/-- Subtask partitions, or nothing when the criteria cannot be cleanly split. Judges stay at the
join. -/
def partitionCriteria (s : RunState) (maxParts : Option ℕ) :
    Option (List (String × List String)) :=
  let localCriteria := s.criteria.filter fun c => c.kind != .judge
  let partCount := min (partBound maxParts) localCriteria.length
  if localCriteria.length < 2 ∨ partCount < 2 then none
  else
    some (((roundRobin partCount (localCriteria.map fun c => c.id)).zipIdx.filter
      fun part => part.1 ≠ []).map fun part => ("part-" ++ toString (part.2 + 1), part.1))

def asksDecomposition (hint : Option StrategyHint) (request : String) : Bool :=
  hint == some .decomposition || Text.startsWith request "DECOMPOSE:" ||
    (!Text.startsWith request "PORTFOLIO:" && Text.contains request "DECOMPOSE:")

def asksPortfolio (hint : Option StrategyHint) (request : String) : Bool :=
  hint == some .portfolio || Text.startsWith request "PORTFOLIO:" ||
    Text.startsWith request "AMBIGUOUS:"

/-- The best candidates are close and the better one is good enough. -/
def ambiguousTop : List SkillCandidateRef → Bool
  | first :: second :: _ =>
    decide (max (first.score - second.score) (second.score - first.score) ≤ portfolioGap) &&
      decide (adaptThreshold ≤ first.score)
  | _ => false

/-- The guide names the candidates by descending score, then by id. -/
def stitchGuide (skills : List SkillCandidateRef) : Option (List SkillCandidateRef) :=
  if skills.length < 2 then none
  else some (skills.mergeSort fun a b =>
    decide (b.score < a.score) || (a.score == b.score && decide (a.skillId ≤ b.skillId)))

/-- The choice among the retrieved skills. -/
def planFromBundle (ctx : NodeContext) (s : RunState) : RunState × RouteName :=
  match s.bundle.skills with
  | [] => ({ s with strategy := some .scratch, chosen := none }, .singleStrategy)
  | top :: rest =>
    if ambiguousTop (top :: rest) then
      ({ s with strategy := some .portfolio, chosen := some top }, .fanOutStrategy)
    else if applyThreshold ≤ top.score then
      ({ s with strategy := some .apply, chosen := some top, executionGuide := none },
        .singleStrategy)
    else if adaptThreshold ≤ top.score then
      ({ s with
          strategy := some .adapt
          chosen := some top
          executionGuide := if ctx.deterministicGuide then stitchGuide (top :: rest) else none },
        .singleStrategy)
    else ({ s with strategy := some .scratch, chosen := none }, .singleStrategy)

def planState (ctx : NodeContext) (s : RunState) : RunState × RouteName :=
  let hint := s.task.goal.bind (·.strategyHint)
  let request := s.task.request.getD ""
  if hint == some .abstain || Text.startsWith request "ABSTAIN:" then
    ({ s with strategy := some .abstain }, .abstain)
  else if asksDecomposition hint request then
    if (partitionCriteria s none).isNone then
      ({ s with strategy := some .scratch }, .singleStrategy)
    else ({ s with strategy := some .decomposition }, .fanOutStrategy)
  else if asksPortfolio hint request then
    ({ s with strategy := some .portfolio }, .fanOutStrategy)
  else planFromBundle ctx s

def plan (ctx : NodeContext) (s : RunState) (t : Tree) : NodeOutcome :=
  { state := (planState ctx s).1, route := some (planState ctx s).2, workdir := t }

theorem intake_spec {py : Platform} {ctx : NodeContext} {s : RunState} {t : Tree}
    {o : NodeOutcome} (h : intake py ctx s t = .ok o) :
    ∃ criteria, criteriaToLock py ctx s = .ok criteria ∧
      o = { state := { s with criteria := clampToCeiling ctx criteria }
            route := some .always
            workdir := t } := by
  obtain ⟨criteria, hc, h⟩ := Fallible.bind_eq_ok.mp h
  cases h
  exact ⟨criteria, hc, rfl⟩

/-- A choice of `plan`: the route is the one that the table has for the strategy. -/
structure Planned (s : RunState) (choice : RunState × RouteName) : Prop where
  state : ∃ strategy chosen guide,
    choice.1 = { s with strategy, chosen, executionGuide := guide }
  route : (choice.2 = .abstain ∧ choice.1.strategy = some .abstain) ∨
    (choice.2 = .fanOutStrategy ∧
      (choice.1.strategy = some .portfolio ∨ choice.1.strategy = some .decomposition)) ∨
    (choice.2 = .singleStrategy ∧ (choice.1.strategy = some .apply ∨
      choice.1.strategy = some .adapt ∨ choice.1.strategy = some .scratch))

theorem planned_single {s : RunState} {strategy : Strategy} {chosen : Option SkillCandidateRef}
    {guide : Option (List SkillCandidateRef)}
    (h : strategy = .apply ∨ strategy = .adapt ∨ strategy = .scratch) :
    Planned s ({ s with strategy := some strategy, chosen, executionGuide := guide },
      .singleStrategy) where
  state := ⟨_, _, _, rfl⟩
  route := Or.inr (Or.inr ⟨rfl, by simpa using h⟩)

theorem planned_fanOut {s : RunState} {strategy : Strategy} {chosen : Option SkillCandidateRef}
    (h : strategy = .portfolio ∨ strategy = .decomposition) :
    Planned s ({ s with strategy := some strategy, chosen }, .fanOutStrategy) where
  state := ⟨_, _, _, rfl⟩
  route := Or.inr (Or.inl ⟨rfl, by simpa using h⟩)

theorem planFromBundle_planned (ctx : NodeContext) (s : RunState) :
    Planned s (planFromBundle ctx s) := by
  unfold planFromBundle
  split
  · exact planned_single (Or.inr (Or.inr rfl))
  · split
    · exact planned_fanOut (Or.inl rfl)
    · split
      · exact planned_single (Or.inl rfl)
      · split
        · exact planned_single (Or.inr (Or.inl rfl))
        · exact planned_single (Or.inr (Or.inr rfl))

theorem planState_planned (ctx : NodeContext) (s : RunState) : Planned s (planState ctx s) := by
  unfold planState
  dsimp only
  split
  · exact ⟨⟨_, _, _, rfl⟩, Or.inl ⟨rfl, rfl⟩⟩
  · split
    · split
      · exact planned_single (Or.inr (Or.inr rfl))
      · exact planned_fanOut (Or.inr rfl)
    · split
      · exact planned_fanOut (Or.inl rfl)
      · exact planFromBundle_planned ctx s

theorem partitionCriteria_length_le {s : RunState} {n : ℕ} (hn : 1 ≤ n)
    {parts : List (String × List String)} (h : partitionCriteria s (some n) = some parts) :
    parts.length ≤ n := by
  have hbound : partBound (some n) = n := if_neg (by omega)
  unfold partitionCriteria at h
  dsimp only at h
  rw [hbound] at h
  split at h
  · cases h
  · cases h
    rw [List.length_map]
    refine (List.length_filter_le _ _).trans ?_
    rw [List.length_zipIdx, roundRobin, List.length_map, List.length_range]
    exact Nat.min_le_left _ _

end Recertia.Graph
