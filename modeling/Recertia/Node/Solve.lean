import Recertia.Node.Attempt
import Recertia.Node.FanOut
import Recertia.Node.Validate

/-! `solve`: five paths, each of which opens a meter, charges what it uses and commits once. -/
namespace Recertia.Graph

open FileTree (Tree)

def budgetSignal (detail : String) (exhausted : Dimension) : FailureSignal :=
  { source := .solver, detail := detail ++ exhausted.text, classHint := some .budget }

def exitDetail (step : ℕ) (code : Int) (command : String) : String :=
  "step " ++ toString step ++ " exited " ++ toString code ++ ": " ++ command

/-- The reference under which a path without transcripts files its attempt. -/
def attemptRef (s : RunState) (attemptNo : ℕ) : String :=
  s.runId ++ "/attempt-" ++ toString attemptNo

/-- `text or default`: an empty text counts as absent. -/
def orText (text : Option String) (default : String) : String :=
  match text with
  | none => default
  | some t => if t = "" then default else t

def withTranscript (s : RunState) (ref : Option String) : RunState :=
  { s with transcriptRef := ref }

/-- The loop of `solve_script_via_tools` from command number `opSeq` on. -/
def solveScriptViaTools (ctx : NodeContext) (s : RunState) (attemptNo : ℕ) :
    ℕ → List String → AttemptMeter → Tree → NodeOutcome
  | opSeq, [], m, t => completed s m (ctx.elapsedS opSeq) attemptNo 1 ctx.transcriptHash t
  | opSeq, command :: rest, m, t =>
    match m.preflight (ctx.elapsedS opSeq) 0 1 with
    | some exhausted =>
      failed (withTranscript s (some ctx.transcriptHash)) m (ctx.elapsedS (opSeq + 1)) attemptNo 1
        (budgetSignal "budget exhausted before tool dispatch: " exhausted) t
    | none =>
      let answer := ctx.command opSeq command t
      let usage := ctx.toolUsage opSeq
      let m' := m.charge 1 usage.tokens usage.costUsd
      if answer.returncode ≠ 0 then
        let detail := exitDetail opSeq answer.returncode command
        failed (withTranscript s (some ctx.transcriptHash)) m' (ctx.elapsedS (opSeq + 1)) attemptNo
          1 { source := .solver
              detail := if ctx.shellIsFlaky then "flaky tool=shell: " ++ detail else detail }
          answer.workdir
      else solveScriptViaTools ctx s attemptNo (opSeq + 1) rest m' answer.workdir

/-- The loop of `solve_legacy_script`: a command is charged after it ran, without a preflight. -/
def solveLegacyScript (ctx : NodeContext) (s : RunState) (attemptNo : ℕ) :
    ℕ → List String → AttemptMeter → Tree → NodeOutcome
  | _, [], m, t => completed s m (ctx.elapsedS 0) attemptNo 1 (attemptRef s attemptNo) t
  | opSeq, command :: rest, m, t =>
    let answer := ctx.command opSeq command t
    let m' := m.charge 1 0 0
    if answer.returncode ≠ 0 then
      failed s m' (ctx.elapsedS 0) attemptNo 1
        { source := .solver, detail := exitDetail opSeq answer.returncode command } answer.workdir
    else solveLegacyScript ctx s attemptNo (opSeq + 1) rest m' answer.workdir

def scratchMaxSteps (ctx : NodeContext) : ℕ := max 1 (min 20 ctx.scratchMaxSteps)

/-- The observe-act loop with `remaining` steps left, at step number `step`. -/
def solveScratchObserveAct (ctx : NodeContext) (s : RunState) (attemptNo : ℕ) :
    ℕ → ℕ → Option String → AttemptMeter → Tree → NodeOutcome
  | 0, step, lastError, m, t =>
    failed (withTranscript s (some ctx.transcriptHash)) m (ctx.elapsedS step) attemptNo 1
      { source := .solver
        detail := orText lastError
          ("scratch observe-act exhausted " ++ toString (scratchMaxSteps ctx) ++ " steps") } t
  | remaining + 1, step, _, m, t =>
    match m.preflight (ctx.elapsedS step) 0 1 with
    | some exhausted =>
      failed (withTranscript s (some ctx.transcriptHash)) m (ctx.elapsedS (step + 1)) attemptNo 1
        (budgetSignal "budget exhausted before tool dispatch: " exhausted) t
    | none =>
      match ctx.scratchStep step t with
      | .modelError exc =>
        failed (withTranscript s (some ctx.transcriptHash)) m (ctx.elapsedS (step + 1)) attemptNo 1
          { source := .solver
            detail := "environment: model error during scratch: " ++ exc
            classHint := some .environment } t
      | .empty cost =>
        solveScratchObserveAct ctx s attemptNo remaining (step + 1)
          (some "empty command from model") (m.charge 0 cost.tokens cost.costUsd) t
      | .refused cost _ reason =>
        solveScratchObserveAct ctx s attemptNo remaining (step + 1) (some reason)
          (m.charge 0 cost.tokens cost.costUsd) t
      | .ran cost command usage answer =>
        let m' := (m.charge 0 cost.tokens cost.costUsd).charge 1 usage.tokens usage.costUsd
        if answer.returncode ≠ 0 then
          solveScratchObserveAct ctx s attemptNo remaining (step + 1)
            (some (exitDetail step answer.returncode command)) m' answer.workdir
        else
          completed s m' (ctx.elapsedS (step + 1)) attemptNo 1 ctx.transcriptHash answer.workdir

/-- The whole skill is one operation: its calls are charged after they ran. -/
def solveViaApplicator (ctx : NodeContext) (s : RunState) (attemptNo : ℕ) (t : Tree) :
    NodeOutcome :=
  let a := ctx.application t
  let m := (AttemptMeter.opened s).charge a.toolCalls a.usage.tokens a.usage.costUsd
  if a.ok then
    completed s m (ctx.elapsedS 0) attemptNo 1
      (orText a.transcriptRef (attemptRef s attemptNo)) a.workdir
  else
    let error := orText a.error "skill application failed"
    failed (withTranscript s a.transcriptRef) m (ctx.elapsedS 0) attemptNo 1
      { source := .solver
        detail := if a.mergeTimeout then "claim timeout: " ++ error else error } a.workdir

/-- Runs a script in a branch workspace: whether it succeeded, how many commands ran, and the
workdir it leaves. -/
def runBranchScript (ctx : NodeContext) (branchId : String) :
    ℕ → List String → Tree → Bool × ℕ × Tree
  | executed, [], t => (true, executed, t)
  | executed, command :: rest, t =>
    let answer := ctx.branchCommand branchId executed command t
    if answer.returncode ≠ 0 then (false, executed + 1, answer.workdir)
    else runBranchScript ctx branchId (executed + 1) rest answer.workdir

def projectedSpend (b : BranchState) (commands : ℕ) : Spend :=
  { attempts := b.spent.attempts + 1
    toolCalls := b.spent.toolCalls + commands
    tokens := b.spent.tokens
    wallClockS := b.spent.wallClockS
    costUsd := b.spent.costUsd + branchCost commands }

def leaseExcess (b : BranchState) (commands : ℕ) : Option Dimension :=
  budgetExcess b.budget.toBudgetFields (projectedSpend b commands) {} {}

/-- Decomposition branches score the criteria they own; portfolio branches keep a comparable
score. -/
def branchResults (py : Platform) (ctx : NodeContext) (s : RunState) (b : BranchState) (ok : Bool)
    (t : Tree) : Except NodeError (List CriterionResult) :=
  match b.kind with
  | .decomposition =>
    scoreOwnedCriteria py ctx (s.criteria.filter fun c => b.ownedCriteria.contains c.id)
      (FileTree.ofFiles (FileTree.filesUnder t [b.branchId]))
  | .portfolio => .ok [{ criterionId := "branch-ok", kind := some .command, passed := ok }]

def requiredResultsPass (results : List CriterionResult) : Bool :=
  results.all fun r => !decide (1 ≤ r.weight) || r.passed

def branchOk (b : BranchState) (ok : Bool) (results : List CriterionResult) : Bool :=
  match b.kind with
  | .decomposition => ok && requiredResultsPass results
  | .portfolio => ok

def runBranch (py : Platform) (ctx : NodeContext) (s : RunState) (b : BranchState) (t : Tree) :
    Except NodeError (BranchState × Tree) := do
  let script := scriptOrTrue ctx
  if (leaseExcess b script.length).isSome then
    return ({ b with
      status := .timedOut
      results := [{ criterionId := "branch-budget", kind := some .command, passed := false }]
      workspaceRef := [b.branchId]
      spent := projectedSpend b script.length
      reserved := {} }, t)
  let (ok, executed, t') := runBranchScript ctx b.branchId 0 script t
  let results ← branchResults py ctx s b ok t'
  return ({ b with
    status := if branchOk b ok results then .succeeded else .failed
    results
    costUsd := some (.number (branchCost executed))
    workspaceRef := [b.branchId]
    spent := {
      attempts := 1
      toolCalls := executed
      wallClockS := max 0 (ctx.branchElapsedS b.branchId)
      costUsd := branchCost executed }
    reserved := {} }, t')

def BranchStatus.pending : BranchStatus → Bool
  | .dispatched => true
  | .running => true
  | _ => false

structure BranchesRun where
  branches : List BranchState
  meter : AttemptMeter
  attemptsCharged : ℕ
  workdir : Tree

/-- Runs the pending branches in order and charges each one's spend to the parent meter. -/
def runBranches (py : Platform) (ctx : NodeContext) (s : RunState) :
    List BranchState → AttemptMeter → ℕ → Tree → Except NodeError BranchesRun
  | [], m, attempts, t => .ok ⟨[], m, attempts, t⟩
  | b :: bs, m, attempts, t =>
    if b.status.pending then do
      let (b', t') ← runBranch py ctx s b t
      let rest ← runBranches py ctx s bs
        (m.charge b'.spent.toolCalls b'.spent.tokens b'.spent.costUsd)
        (attempts + b'.spent.attempts) t'
      return { rest with branches := b' :: rest.branches }
    else do
      let rest ← runBranches py ctx s bs m attempts t
      return { rest with branches := b :: rest.branches }

def branchesRef (s : RunState) (attemptNo : ℕ) : String :=
  s.runId ++ "/branches-" ++ toString attemptNo

def solveBranches (py : Platform) (ctx : NodeContext) (s : RunState) (attemptNo : ℕ) (t : Tree) :
    Except NodeError NodeOutcome := do
  let run ← runBranches py ctx s s.branches (AttemptMeter.openedRetiring s) 0 t
  let retired := { s with reserved := {}, branches := run.branches }
  match run.meter.preflight (ctx.elapsedS 0) run.attemptsCharged 0 with
  | some exhausted =>
    return failed (withTranscript retired (some (branchesRef s attemptNo))) run.meter
      (ctx.elapsedS 1) attemptNo run.attemptsCharged
      (budgetSignal "parent budget exceeded by branches: " exhausted) run.workdir
  | none =>
    return completed retired run.meter (ctx.elapsedS 1) attemptNo run.attemptsCharged
      (branchesRef s attemptNo) run.workdir

def usesSkill (s : RunState) : Bool := s.strategy == some .apply || s.strategy == some .adapt

/-- Scratch solving was selected but no model client is configured. -/
inductive Resolved
  | script (commands : List String)
  | modelRequired

def resolveScript (ctx : NodeContext) (s : RunState) : Except NodeError Resolved :=
  match ctx.script, s.chosen with
  | some script, _ => .ok (.script script)
  | none, some chosen =>
    if usesSkill s && ctx.store then .ok (.script (ctx.skillScript chosen)) else withoutSkill
  | none, none => withoutSkill
where
  withoutSkill : Except NodeError Resolved :=
    if s.strategy = some .scratch ∧ ctx.model then
      match Text.firstLine? ctx.modelReply with
      | none => .error (.indexError "list index out of range")
      | some command => .ok (.script [command])
    else if s.strategy = some .scratch ∧ (ctx.tools || ctx.transcripts) then .ok .modelRequired
    else .ok (.script ["true"])

def modelRequiredDetail : String :=
  "environment: scratch solving requires a model client; set RECERTIA_MODEL_PROVIDER " ++
    "and credentials (or --model provider:id), or pass an explicit script / " ++
    "RECERTIA_ALLOW_STUB_MODEL=1 for offline demos"

/-- The five paths, in the order in which `solve` tries them. -/
inductive SolvePath
  | branches | applicator | scratch | tools (script : List String) | legacy (script : List String)
  | modelRequired
  deriving DecidableEq

def scriptPath (ctx : NodeContext) (s : RunState) : Except NodeError SolvePath := do
  match ← resolveScript ctx s with
  | .modelRequired => return .modelRequired
  | .script script =>
    if ctx.transcripts && ctx.tools then return .tools script else return .legacy script

def solvePath (ctx : NodeContext) (s : RunState) : Except NodeError SolvePath :=
  if s.branches.any fun b => b.status == .dispatched then .ok .branches
  else if ctx.applicator && usesSkill s && s.chosen.isSome && ctx.store then .ok .applicator
  else if ctx.script.isNone && s.strategy == some .scratch && ctx.model && ctx.tools &&
      ctx.transcripts then .ok .scratch
  else scriptPath ctx s

def solve (py : Platform) (ctx : NodeContext) (s : RunState) (t : Tree) :
    Except NodeError NodeOutcome := do
  let attemptNo := s.attemptNo + 1
  match ← solvePath ctx s with
  | .branches => solveBranches py ctx s attemptNo t
  | .applicator => return solveViaApplicator ctx s attemptNo t
  | .scratch =>
    return solveScratchObserveAct ctx s attemptNo (scratchMaxSteps ctx) 0 none
      (AttemptMeter.opened s) t
  | .modelRequired =>
    return failed s (AttemptMeter.opened s) (ctx.elapsedS 0) attemptNo 1
      { source := .solver, detail := modelRequiredDetail, classHint := some .environment } t
  | .tools script => return solveScriptViaTools ctx s attemptNo 0 script (AttemptMeter.opened s) t
  | .legacy script => return solveLegacyScript ctx s attemptNo 0 script (AttemptMeter.opened s) t

end Recertia.Graph
