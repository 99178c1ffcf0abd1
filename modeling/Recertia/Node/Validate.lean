import Recertia.Lib.Fallible
import Recertia.Node.Context

/-! `validate`: score the locked criteria against the workdir. `join` scores its merged artifact
with the same function. -/
namespace Recertia.Graph

open FileTree (Tree)

/-- Only a missing runtime and a timeout are caught. -/
def runCommand (ctx : NodeContext) (c : TaskCriterion) (expectExit : Int) (t : Tree) :
    Except NodeError CriterionResult :=
  let scored (code : Int) (output : String) : CriterionResult :=
    { criterionId := c.id
      kind := some .command
      passed := code == expectExit
      weight := c.weight
      exitCode := some code
      outputExcerpt := Text.takeLast 2000 output }
  match ctx.execute c t with
  | .exited code output => .ok (scored code output)
  | .unavailable exc => .ok (scored 126 exc)
  | .timedOut => .ok (scored 124 ("timed out after " ++ toString c.timeoutS ++ "s"))
  | .raised exc => .error (.valueError exc)

/-- The result of a check that the runner evaluates itself. -/
def runMeasured (ctx : NodeContext) (c : TaskCriterion) (t : Tree) : CriterionResult :=
  let m := ctx.measure c t
  { criterionId := c.id
    kind := some c.kind
    passed := m.passed
    weight := c.weight
    outputExcerpt := Text.takeFirst 2000 m.excerpt
    errored := m.errored }

/-- A solver model never judges its own artifact. -/
def runJudge (py : Platform) (ctx : NodeContext) (c : TaskCriterion) (t : Tree) :
    Except NodeError CriterionResult :=
  if !ctx.verifierModel then
    .error (.valueError
      ("judge criterion " ++ py.repr c.id ++ " requires an independent verifier model"))
  else if ctx.model && ctx.sharesIdentity then
    .error (.valueError "solver model cannot judge its own artifact")
  else
    let a := ctx.judge c t
    .ok { criterionId := c.id
          kind := some .judge
          passed := a.pass
          weight := c.weight
          isolation := some .freshContext
          lens := c.lens
          contextHash := some a.contextHash
          outputExcerpt := Text.takeFirst 2000 a.text
          durationS := a.latencyS }

def scoreCriterion (py : Platform) (ctx : NodeContext) (t : Tree) (c : TaskCriterion) :
    Except NodeError CriterionResult :=
  match c.check with
  | .command _ expectExit => runCommand ctx c expectExit t
  | .judge _ => runJudge py ctx c t
  | _ => .ok (runMeasured ctx c t)

def scoreAll (py : Platform) (ctx : NodeContext) (t : Tree) :
    List TaskCriterion → Except NodeError (List CriterionResult)
  | [] => .ok []
  | c :: cs => do
    let r ← scoreCriterion py ctx t c
    let rs ← scoreAll py ctx t cs
    return r :: rs

def judgeLenses (criteria : List TaskCriterion) : List (Option Lens) :=
  (criteria.filter fun c => c.kind == .judge).map fun c => c.lens

def advisoryExcerpt (r : CriterionResult) : String :=
  Text.takeFirst 2000
    ("[advisory] actual=" ++ (if r.passed then "pass" else "fail") ++ "; " ++ r.outputExcerpt)

/-- A required criterion without a binding proof is recorded as passed. -/
def recordResult (hash : EvidenceHash) (c : TaskCriterion) (r : CriterionResult) :
    CriterionResult :=
  if c.isRequired && !effectivelyRequired hash c then
    { r with passed := true, outputExcerpt := advisoryExcerpt r }
  else r

def effectivelyRequiredFailed (hash : EvidenceHash) (criteria : List TaskCriterion)
    (raw : List CriterionResult) : Bool :=
  (criteria.zip raw).any fun cr => effectivelyRequired hash cr.1 && !cr.2.passed

structure Score where
  results : List CriterionResult
  failureSignal : Option FailureSignal

/-- Scores `criteria` against `t`, for normal and post-merge validation. -/
def scoreCriteria (py : Platform) (ctx : NodeContext) (criteria : List TaskCriterion) (t : Tree) :
    Except NodeError Score :=
  if (judgeLenses criteria).Nodup then do
    let raw ← scoreAll py ctx t criteria
    return {
      results := List.zipWith (recordResult py.evidenceHash) criteria raw
      failureSignal :=
        if effectivelyRequiredFailed py.evidenceHash criteria raw then
          some { source := .validator, detail := "a required, proven criterion failed" }
        else none }
  else .error (.valueError "multiple judge criteria must declare distinct lens values")

def validate (py : Platform) (ctx : NodeContext) (s : RunState) (t : Tree) :
    Except NodeError NodeOutcome := do
  let score ← scoreCriteria py ctx s.criteria t
  let s' := { s with
    results := score.results
    resultsHistory := s.resultsHistory ++ [score.results]
    failureSignal := score.failureSignal }
  let route := if !s.branches.isEmpty then .hasBranches
    else if score.failureSignal.isSome then .noBranchesAndFailing
    else .noBranchesAndPassing
  return { state := s', route := some route, workdir := t }

/-- Owned criteria are scored without the advisory downgrade. -/
def scoreOwnedCriteria (py : Platform) (ctx : NodeContext) (criteria : List TaskCriterion)
    (t : Tree) : Except NodeError (List CriterionResult) := scoreAll py ctx t criteria

theorem scoreCriterion_id {py : Platform} {ctx : NodeContext} {t : Tree} {c : TaskCriterion}
    {r : CriterionResult} (h : scoreCriterion py ctx t c = .ok r) : r.criterionId = c.id := by
  unfold scoreCriterion at h
  split at h
  · unfold runCommand at h
    split at h <;> cases h <;> rfl
  · unfold runJudge at h
    split at h
    · cases h
    · split at h
      · cases h
      · cases h
        rfl
  · cases h
    rfl

theorem scoreAll_forall₂ {py : Platform} {ctx : NodeContext} {t : Tree}
    {cs : List TaskCriterion} {rs : List CriterionResult}
    (h : scoreAll py ctx t cs = .ok rs) :
    List.Forall₂ (fun c r => scoreCriterion py ctx t c = .ok r) cs rs := by
  induction cs generalizing rs with
  | nil =>
    cases h
    exact .nil
  | cons c cs ih =>
    obtain ⟨r, hr, h⟩ := Fallible.bind_eq_ok.mp h
    obtain ⟨rs', hrs, h⟩ := Fallible.bind_eq_ok.mp h
    cases h
    exact .cons hr (ih hrs)

/-- The spec of scoring: the criteria were scored one by one, and the signal is raised exactly
when an effectively required one failed. -/
theorem scoreCriteria_spec {py : Platform} {ctx : NodeContext} {cs : List TaskCriterion}
    {t : Tree} {score : Score} (h : scoreCriteria py ctx cs t = .ok score) :
    ∃ raw, List.Forall₂ (fun c r => scoreCriterion py ctx t c = .ok r) cs raw ∧
      score.results = List.zipWith (recordResult py.evidenceHash) cs raw ∧
      (score.failureSignal = none ↔
        ∀ c r, (c, r) ∈ cs.zip raw → effectivelyRequired py.evidenceHash c = true →
          r.passed = true) := by
  unfold scoreCriteria at h
  split at h
  · obtain ⟨raw, hraw, h⟩ := Fallible.bind_eq_ok.mp h
    cases h
    refine ⟨raw, scoreAll_forall₂ hraw, rfl, ?_⟩
    have hfail : effectivelyRequiredFailed py.evidenceHash cs raw = false ↔
        ∀ c r, (c, r) ∈ cs.zip raw → effectivelyRequired py.evidenceHash c = true →
          r.passed = true := by
      simp [effectivelyRequiredFailed, List.any_eq_false]
    rw [← hfail]
    by_cases hf : effectivelyRequiredFailed py.evidenceHash cs raw <;> simp [hf]
  · cases h

/-- Result by result, what scoring records when it raises no signal. -/
structure Recorded (py : Platform) (ctx : NodeContext) (t : Tree) (c : TaskCriterion)
    (r : CriterionResult) : Prop where
  criterionId : r.criterionId = c.id
  required : c.isRequired = true → r.passed = true
  proven : effectivelyRequired py.evidenceHash c = true → scoreCriterion py ctx t c = .ok r

theorem recordResult_recorded {py : Platform} {ctx : NodeContext} {t : Tree} {c : TaskCriterion}
    {r : CriterionResult} (h : scoreCriterion py ctx t c = .ok r)
    (hpass : effectivelyRequired py.evidenceHash c = true → r.passed = true) :
    Recorded py ctx t c (recordResult py.evidenceHash c r) := by
  have hid : r.criterionId = c.id := scoreCriterion_id h
  unfold recordResult
  by_cases heff : effectivelyRequired py.evidenceHash c = true
  · rw [if_neg (by simp [heff])]
    exact ⟨hid, fun _ => hpass heff, fun _ => h⟩
  · by_cases hreq : c.isRequired = true
    · rw [if_pos (by simp [heff, hreq])]
      exact ⟨hid, fun _ => rfl, fun he => (heff he).elim⟩
    · rw [if_neg (by simp [hreq])]
      exact ⟨hid, fun hr => (hreq hr).elim, fun he => (heff he).elim⟩

theorem score_recorded {py : Platform} {ctx : NodeContext} {cs : List TaskCriterion} {t : Tree}
    {score : Score} (h : scoreCriteria py ctx cs t = .ok score)
    (hs : score.failureSignal = none) : List.Forall₂ (Recorded py ctx t) cs score.results := by
  obtain ⟨raw, hraw, hres, hsig⟩ := scoreCriteria_spec h
  have hpass := hsig.mp hs
  rw [hres]
  clear hsig hs hres h
  induction hraw with
  | nil => exact .nil
  | @cons c r cs raw hc _ ih =>
    refine .cons (recordResult_recorded hc fun he => hpass c r List.mem_cons_self he) ?_
    exact ih fun d q hdq => hpass d q (List.mem_cons_of_mem _ hdq)

theorem validate_spec {py : Platform} {ctx : NodeContext} {s : RunState} {t : Tree}
    {o : NodeOutcome} (h : validate py ctx s t = .ok o) :
    ∃ score, scoreCriteria py ctx s.criteria t = .ok score ∧
      o = { state := { s with
              results := score.results
              resultsHistory := s.resultsHistory ++ [score.results]
              failureSignal := score.failureSignal }
            route := some (if !s.branches.isEmpty then .hasBranches
              else if score.failureSignal.isSome then .noBranchesAndFailing
              else .noBranchesAndPassing)
            workdir := t } := by
  obtain ⟨score, hscore, h⟩ := Fallible.bind_eq_ok.mp h
  cases h
  exact ⟨score, hscore, rfl⟩

/-! The verdict of a scoring, criterion by criterion: when it raises no signal, and when its results
let the required criteria pass. -/

def CriterionPasses (py : Platform) (ctx : NodeContext) (t : Tree) (c : TaskCriterion) : Prop :=
  ∃ r, scoreCriterion py ctx t c = .ok r ∧ r.passed = true

/-- Every required criterion with a binding proof passes on the workdir. -/
def CriteriaPass (py : Platform) (ctx : NodeContext) (cs : List TaskCriterion) (t : Tree) : Prop :=
  ∀ c ∈ cs, effectivelyRequired py.evidenceHash c = true → CriterionPasses py ctx t c

end Recertia.Graph
