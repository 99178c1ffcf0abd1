import Recertia.Lib.Durable
import Recertia.Node.Solve

/-! The paths of `solve` with the operation ledger in them: what runs through `ctx.op_once`,
and what runs outside of it. A row holds what its operation returned. -/
namespace Recertia.Graph

open Durable
open FileTree (Tree)

/-- A unit of work of a solve hop. -/
inductive Work
  | command (opSeq : ℕ) (command : String)
  | modelReply (step : ℕ)
  | scratchCommand (step : ℕ) (command : String)
  | skillCommand (dispatched : ℕ)
  | branchCommand (branchId : String) (executed : ℕ) (command : String)
  | branchCriterion (branchId : String) (criterion : TaskCriterion)

inductive ModelReply
  | error (exc : String)
  | empty (cost : Usage)
  | refused (cost : Usage) (reason : String)
  | proposed (cost : Usage) (command : String)

structure CommandOutput where
  returncode : Int
  stdout : String := ""

abbrev Work.Answer : Work → Type
  | .command _ _ => Int
  | .modelReply _ => ModelReply
  | .scratchCommand _ _ => Int × Usage
  | .skillCommand _ => CommandOutput
  | .branchCommand _ _ _ => Int
  | .branchCriterion _ _ => Except NodeError CriterionResult

/-- Every unit but a model call is a command or a criterion check. -/
def Work.isCheckOrCommand : Work → Bool
  | .modelReply _ => false
  | _ => true

/-- The `op_seq` of the operation that the unit is part of. -/
def Work.opSeq : Work → Option ℕ
  | .command opSeq _ => some opSeq
  | .modelReply step => some step
  | .scratchCommand step _ => some step
  | .skillCommand _ => some 0
  | .branchCommand _ _ _ => none
  | .branchCriterion _ _ => none

structure ApplySummary where
  ok : Bool
  transcriptRef : Option String := none
  error : Option String := none
  mergeTimeout : Bool := false
  toolCalls : ℕ
  usage : Usage := {}

/-- `SkillApplicator.apply`: any program of tool calls that ends with a summary. -/
abbrev SkillApplication := Body ℕ (fun _ => CommandOutput) ApplySummary NodeError

/-- What the operations of a solve hop return. -/
inductive OpResult
  | command (returncode : Int) (flaky : Bool) (usage : Usage)
  | empty (cost : Usage)
  | refused (cost : Usage) (reason : String)
  | ran (cost : Usage) (command : String) (usage : Usage) (returncode : Int)
  | applied (summary : ApplySummary)

inductive Raised
  | modelError (exc : String)
  | node (e : NodeError)

/-- The outcome of a hop, given the workspace it leaves. -/
abbrev HopOutcome := Tree → Except NodeError NodeOutcome

abbrev HopProg := Prog Work Work.Answer ℕ OpResult Raised HopOutcome

def propagate : Raised → HopOutcome
  | .modelError exc, _ => .error (.valueError exc)
  | .node e, _ => .error e

/-- A row of another path: the `KeyError` of a missing field. -/
def missingField (field : String) : HopProg := .ret fun _ => .error (.indexError field)

def scriptViaToolsHop (ctx : NodeContext) (s : RunState) (attemptNo : ℕ) :
    ℕ → List String → AttemptMeter → HopProg
  | opSeq, [], m =>
    .ret fun t => .ok (completed s m (ctx.elapsedS opSeq) attemptNo 1 ctx.transcriptHash t)
  | opSeq, command :: rest, m =>
    match m.preflight (ctx.elapsedS opSeq) 0 1 with
    | some exhausted => .ret fun t => .ok
        (failed (withTranscript s (some ctx.transcriptHash)) m (ctx.elapsedS (opSeq + 1)) attemptNo
          1 (budgetSignal "budget exhausted before tool dispatch: " exhausted) t)
    | none =>
      .once opSeq
        (.perform (.command opSeq command) fun returncode =>
          .ret (.command returncode ctx.shellIsFlaky (ctx.toolUsage opSeq)))
        propagate fun
        | .command returncode flaky usage =>
          let m' := m.charge 1 usage.tokens usage.costUsd
          if returncode ≠ 0 then
            let detail := exitDetail opSeq returncode command
            .ret fun t => .ok
              (failed (withTranscript s (some ctx.transcriptHash)) m' (ctx.elapsedS (opSeq + 1))
                attemptNo 1
                { source := .solver
                  detail := if flaky then "flaky tool=shell: " ++ detail else detail } t)
          else scriptViaToolsHop ctx s attemptNo (opSeq + 1) rest m'
        | _ => missingField "'returncode'"

def legacyScriptHop (ctx : NodeContext) (s : RunState) (attemptNo : ℕ) :
    ℕ → List String → AttemptMeter → HopProg
  | _, [], m =>
    .ret fun t => .ok (completed s m (ctx.elapsedS 0) attemptNo 1 (attemptRef s attemptNo) t)
  | opSeq, command :: rest, m =>
    .once opSeq
      (.perform (.command opSeq command) fun returncode => .ret (.command returncode false {}))
      propagate fun
      | .command returncode _ _ =>
        let m' := m.charge 1 0 0
        if returncode ≠ 0 then
          .ret fun t => .ok
            (failed s m' (ctx.elapsedS 0) attemptNo 1
              { source := .solver, detail := exitDetail opSeq returncode command } t)
        else legacyScriptHop ctx s attemptNo (opSeq + 1) rest m'
      | _ => missingField "'returncode'"

/-- One observe-act step: the model call and its command are one operation. -/
def scratchStepOp (step : ℕ) : Body Work Work.Answer OpResult Raised :=
  .perform (.modelReply step) fun
    | .error exc => .raise (.modelError exc)
    | .empty cost => .ret (.empty cost)
    | .refused cost reason => .ret (.refused cost reason)
    | .proposed cost command => .perform (.scratchCommand step command) fun (returncode, usage) =>
        .ret (.ran cost command usage returncode)

def scratchObserveActHop (ctx : NodeContext) (s : RunState) (attemptNo : ℕ) :
    ℕ → ℕ → Option String → AttemptMeter → HopProg
  | 0, step, lastError, m => .ret fun t => .ok
      (failed (withTranscript s (some ctx.transcriptHash)) m (ctx.elapsedS step) attemptNo 1
        { source := .solver
          detail := orText lastError
            ("scratch observe-act exhausted " ++ toString (scratchMaxSteps ctx) ++ " steps") } t)
  | remaining + 1, step, _, m =>
    match m.preflight (ctx.elapsedS step) 0 1 with
    | some exhausted => .ret fun t => .ok
        (failed (withTranscript s (some ctx.transcriptHash)) m (ctx.elapsedS (step + 1)) attemptNo 1
          (budgetSignal "budget exhausted before tool dispatch: " exhausted) t)
    | none =>
      .once step (scratchStepOp step)
        (fun
        | .modelError exc, t => .ok
            (failed (withTranscript s (some ctx.transcriptHash)) m (ctx.elapsedS (step + 1))
              attemptNo 1
              { source := .solver
                detail := "environment: model error during scratch: " ++ exc
                classHint := some .environment } t)
        | .node e, _ => .error e)
        fun
        | .empty cost =>
          scratchObserveActHop ctx s attemptNo remaining (step + 1)
            (some "empty command from model") (m.charge 0 cost.tokens cost.costUsd)
        | .refused cost reason =>
          scratchObserveActHop ctx s attemptNo remaining (step + 1) (some reason)
            (m.charge 0 cost.tokens cost.costUsd)
        | .ran cost command usage returncode =>
          let m' := (m.charge 0 cost.tokens cost.costUsd).charge 1 usage.tokens usage.costUsd
          if returncode ≠ 0 then
            scratchObserveActHop ctx s attemptNo remaining (step + 1)
              (some (exitDetail step returncode command)) m'
          else .ret fun t => .ok
            (completed s m' (ctx.elapsedS (step + 1)) attemptNo 1 ctx.transcriptHash t)
        | _ => missingField "'returncode'"

def skillOp : SkillApplication → Body Work Work.Answer OpResult Raised
  | .ret summary => .ret (.applied summary)
  | .raise e => .raise (.node e)
  | .perform dispatched k => .perform (.skillCommand dispatched) fun out => skillOp (k out)

/-- The whole skill is one operation. -/
def applicatorHop (ctx : NodeContext) (skill : SkillApplication) (s : RunState) (attemptNo : ℕ) :
    HopProg :=
  .once 0 (skillOp skill) propagate fun
    | .applied a =>
      let m := (AttemptMeter.opened s).charge a.toolCalls a.usage.tokens a.usage.costUsd
      if a.ok then .ret fun t => .ok
        (completed s m (ctx.elapsedS 0) attemptNo 1
          (orText a.transcriptRef (attemptRef s attemptNo)) t)
      else
        let error := orText a.error "skill application failed"
        .ret fun t => .ok
          (failed (withTranscript s a.transcriptRef) m (ctx.elapsedS 0) attemptNo 1
            { source := .solver
              detail := if a.mergeTimeout then "claim timeout: " ++ error else error } t)
    | _ => missingField "'ok'"

/-- Branch commands are run outside of `op_once`. -/
def branchScriptHop (branchId : String) :
    ℕ → List String → (Bool × ℕ → HopProg) → HopProg
  | executed, [], k => k (true, executed)
  | executed, command :: rest, k =>
    .perform (.branchCommand branchId executed command) fun returncode =>
      if returncode ≠ 0 then k (false, executed + 1)
      else branchScriptHop branchId (executed + 1) rest k

/-- `score_owned_criteria`, outside of `op_once` too. -/
def ownedCriteriaHop (branchId : String) :
    List TaskCriterion → (List CriterionResult → HopProg) → HopProg
  | [], k => k []
  | c :: cs, k => .perform (.branchCriterion branchId c) fun
    | .error e => .ret fun _ => .error e
    | .ok r => ownedCriteriaHop branchId cs fun rs => k (r :: rs)

def branchResultsHop (s : RunState) (b : BranchState) (ok : Bool)
    (k : List CriterionResult → HopProg) : HopProg :=
  match b.kind with
  | .decomposition =>
    ownedCriteriaHop b.branchId (s.criteria.filter fun c => b.ownedCriteria.contains c.id) k
  | .portfolio => k [{ criterionId := "branch-ok", kind := some .command, passed := ok }]

def branchHop (ctx : NodeContext) (s : RunState) (b : BranchState) (k : BranchState → HopProg) :
    HopProg :=
  let script := scriptOrTrue ctx
  if (leaseExcess b script.length).isSome then
    k { b with
      status := .timedOut
      results := [{ criterionId := "branch-budget", kind := some .command, passed := false }]
      workspaceRef := [b.branchId]
      spent := projectedSpend b script.length
      reserved := {} }
  else
    branchScriptHop b.branchId 0 script fun (ok, executed) =>
      branchResultsHop s b ok fun results =>
        k { b with
          status := if branchOk b ok results then .succeeded else .failed
          results
          costUsd := some (.number (branchCost executed))
          workspaceRef := [b.branchId]
          spent := {
            attempts := 1
            toolCalls := executed
            wallClockS := max 0 (ctx.branchElapsedS b.branchId)
            costUsd := branchCost executed }
          reserved := {} }

def branchesLoopHop (ctx : NodeContext) (s : RunState) :
    List BranchState → AttemptMeter → ℕ → (List BranchState × AttemptMeter × ℕ → HopProg) → HopProg
  | [], m, attempts, k => k ([], m, attempts)
  | b :: bs, m, attempts, k =>
    if b.status.pending then
      branchHop ctx s b fun b' =>
        branchesLoopHop ctx s bs (m.charge b'.spent.toolCalls b'.spent.tokens b'.spent.costUsd)
          (attempts + b'.spent.attempts) fun (rest, m, attempts) => k (b' :: rest, m, attempts)
    else branchesLoopHop ctx s bs m attempts fun (rest, m, attempts) => k (b :: rest, m, attempts)

def branchesHop (ctx : NodeContext) (s : RunState) (attemptNo : ℕ) : HopProg :=
  branchesLoopHop ctx s s.branches (AttemptMeter.openedRetiring s) 0
    fun (branches, m, attemptsCharged) =>
      let retired := { s with reserved := {}, branches }
      match m.preflight (ctx.elapsedS 0) attemptsCharged 0 with
      | some exhausted => .ret fun t => .ok
          (failed (withTranscript retired (some (branchesRef s attemptNo))) m (ctx.elapsedS 1)
            attemptNo attemptsCharged (budgetSignal "parent budget exceeded by branches: " exhausted)
            t)
      | none => .ret fun t => .ok
          (completed retired m (ctx.elapsedS 1) attemptNo attemptsCharged (branchesRef s attemptNo)
            t)

/-- `solve` against the operation ledger. -/
def solveHop (ctx : NodeContext) (skill : SkillApplication) (s : RunState) : HopProg :=
  let attemptNo := s.attemptNo + 1
  match solvePath ctx s with
  | .error e => .ret fun _ => .error e
  | .ok .branches => branchesHop ctx s attemptNo
  | .ok .applicator => applicatorHop ctx skill s attemptNo
  | .ok .scratch =>
    scratchObserveActHop ctx s attemptNo (scratchMaxSteps ctx) 0 none (AttemptMeter.opened s)
  | .ok .modelRequired => .ret fun t => .ok
      (failed s (AttemptMeter.opened s) (ctx.elapsedS 0) attemptNo 1
        { source := .solver, detail := modelRequiredDetail, classHint := some .environment } t)
  | .ok (.tools script) => scriptViaToolsHop ctx s attemptNo 0 script (AttemptMeter.opened s)
  | .ok (.legacy script) => legacyScriptHop ctx s attemptNo 0 script (AttemptMeter.opened s)

/-- What the environment of a hop answers to a unit of work, and the workspace it leaves. -/
def NodeContext.answer (py : Platform) (ctx : NodeContext)
    (tool : ℕ → Tree → CommandOutput × Tree) : (w : Work) → Tree → w.Answer × Tree
  | .command opSeq command, t =>
    ((ctx.command opSeq command t).returncode, (ctx.command opSeq command t).workdir)
  | .modelReply step, t =>
    (match ctx.scratchStep step t with
      | .modelError exc => .error exc
      | .empty cost => .empty cost
      | .refused cost _ reason => .refused cost reason
      | .ran cost command _ _ => .proposed cost command, t)
  | .scratchCommand step _, t =>
    match ctx.scratchStep step t with
    | .ran _ _ usage answer => ((answer.returncode, usage), answer.workdir)
    | _ => ((0, {}), t)
  | .skillCommand dispatched, t => tool dispatched t
  | .branchCommand branchId executed command, t =>
    ((ctx.branchCommand branchId executed command t).returncode,
      (ctx.branchCommand branchId executed command t).workdir)
  | .branchCriterion branchId c, t =>
    (scoreCriterion py ctx (FileTree.ofFiles (FileTree.filesUnder t [branchId])) c, t)

/-- The outcome of an uncut hop. -/
def outcomeOf (py : Platform) (ctx : NodeContext) (tool : ℕ → Tree → CommandOutput × Tree)
    (led : ℕ → Option OpResult) (p : HopProg) (t : Tree) : Except NodeError NodeOutcome :=
  (p.run (ctx.answer py tool) led t).1 (p.run (ctx.answer py tool) led t).2

variable (py : Platform) (ctx : NodeContext) (tool : ℕ → Tree → CommandOutput × Tree)

theorem scriptViaToolsHop_outcome (s : RunState) (attemptNo opSeq : ℕ) (script : List String)
    (m : AttemptMeter) (t : Tree) {led : ℕ → Option OpResult}
    (hled : ∀ k, opSeq ≤ k → led k = none) :
    outcomeOf py ctx tool led (scriptViaToolsHop ctx s attemptNo opSeq script m) t =
      .ok (solveScriptViaTools ctx s attemptNo opSeq script m t) := by
  induction script generalizing opSeq m t led with
  | nil => rfl
  | cons command rest ih =>
    have hfresh : led opSeq = none := hled opSeq le_rfl
    have hnext : ∀ r k, opSeq + 1 ≤ k → Function.update led opSeq (some r) k = none := by
      intro r k hk
      rw [Function.update_of_ne (by omega)]
      exact hled k (by omega)
    unfold scriptViaToolsHop solveScriptViaTools
    cases m.preflight (ctx.elapsedS opSeq) 0 1 with
    | some exhausted => rfl
    | none =>
      simp only [outcomeOf, Prog.run_once_fresh _ _ _ _ _ hfresh, Body.run, NodeContext.answer]
      split
      · rfl
      · exact ih _ _ _ (hnext _)

theorem legacyScriptHop_outcome (s : RunState) (attemptNo opSeq : ℕ) (script : List String)
    (m : AttemptMeter) (t : Tree) {led : ℕ → Option OpResult}
    (hled : ∀ k, opSeq ≤ k → led k = none) :
    outcomeOf py ctx tool led (legacyScriptHop ctx s attemptNo opSeq script m) t =
      .ok (solveLegacyScript ctx s attemptNo opSeq script m t) := by
  induction script generalizing opSeq m t led with
  | nil => rfl
  | cons command rest ih =>
    have hfresh : led opSeq = none := hled opSeq le_rfl
    have hnext : ∀ r k, opSeq + 1 ≤ k → Function.update led opSeq (some r) k = none := by
      intro r k hk
      rw [Function.update_of_ne (by omega)]
      exact hled k (by omega)
    unfold legacyScriptHop solveLegacyScript
    simp only [outcomeOf, Prog.run_once_fresh _ _ _ _ _ hfresh, Body.run, NodeContext.answer]
    split
    · rfl
    · exact ih _ _ _ (hnext _)

theorem scratchObserveActHop_outcome (s : RunState) (attemptNo remaining step : ℕ)
    (lastError : Option String) (m : AttemptMeter) (t : Tree) {led : ℕ → Option OpResult}
    (hled : ∀ k, step ≤ k → led k = none) :
    outcomeOf py ctx tool led
        (scratchObserveActHop ctx s attemptNo remaining step lastError m) t =
      .ok (solveScratchObserveAct ctx s attemptNo remaining step lastError m t) := by
  induction remaining generalizing step lastError m t led with
  | zero => rfl
  | succ remaining ih =>
    have hfresh : led step = none := hled step le_rfl
    have hnext : ∀ r k, step + 1 ≤ k → Function.update led step (some r) k = none := by
      intro r k hk
      rw [Function.update_of_ne (by omega)]
      exact hled k (by omega)
    unfold scratchObserveActHop solveScratchObserveAct
    cases m.preflight (ctx.elapsedS step) 0 1 with
    | some exhausted => rfl
    | none =>
      simp only [outcomeOf, Prog.run_once_fresh _ _ _ _ _ hfresh, scratchStepOp, Body.run,
        NodeContext.answer]
      cases hstep : ctx.scratchStep step t with
      | modelError exc => rfl
      | empty cost => exact ih _ _ _ _ (hnext _)
      | refused cost command reason => exact ih _ _ _ _ (hnext _)
      | ran cost command usage answer =>
        simp only [Body.run, NodeContext.answer, hstep]
        split
        · exact ih _ _ _ _ (hnext _)
        · rfl

/-- A skill application as a program answers what the application as a whole does. -/
def Applies (skill : SkillApplication) : Prop :=
  ∀ t, skill.run tool t = (.ok
    { ok := (ctx.application t).ok
      transcriptRef := (ctx.application t).transcriptRef
      error := (ctx.application t).error
      mergeTimeout := (ctx.application t).mergeTimeout
      toolCalls := (ctx.application t).toolCalls
      usage := (ctx.application t).usage }, (ctx.application t).workdir)

theorem skillOp_run (skill : SkillApplication) (t : Tree) :
    (skillOp skill).run (ctx.answer py tool) t =
      ((skill.run tool t).1.map OpResult.applied |>.mapError Raised.node,
        (skill.run tool t).2) := by
  induction skill generalizing t with
  | ret | raise => rfl
  | perform dispatched k ih => exact ih _ _

theorem applicatorHop_outcome (skill : SkillApplication) (s : RunState) (attemptNo : ℕ) (t : Tree)
    {led : ℕ → Option OpResult} (hled : led 0 = none) (hskill : Applies ctx tool skill) :
    outcomeOf py ctx tool led (applicatorHop ctx skill s attemptNo) t =
      .ok (solveViaApplicator ctx s attemptNo t) := by
  simp only [outcomeOf, applicatorHop, Prog.run_once_fresh _ _ _ _ _ hled, skillOp_run, hskill t,
    Except.map, Except.mapError, solveViaApplicator]
  split
  · rfl
  · rfl

theorem branchScriptHop_outcome (branchId : String) (executed : ℕ) (script : List String)
    (k : Bool × ℕ → HopProg) (t : Tree) (led : ℕ → Option OpResult) :
    outcomeOf py ctx tool led (branchScriptHop branchId executed script k) t =
      outcomeOf py ctx tool led
        (k ((runBranchScript ctx branchId executed script t).1,
          (runBranchScript ctx branchId executed script t).2.1))
        (runBranchScript ctx branchId executed script t).2.2 := by
  induction script generalizing executed t with
  | nil => rfl
  | cons command rest ih =>
    let answer := ctx.branchCommand branchId executed command t
    have hperform : outcomeOf py ctx tool led
          (branchScriptHop branchId executed (command :: rest) k) t =
        outcomeOf py ctx tool led
          (if answer.returncode ≠ 0 then k (false, executed + 1)
            else branchScriptHop branchId (executed + 1) rest k) answer.workdir := rfl
    have hrun : runBranchScript ctx branchId executed (command :: rest) t =
        if answer.returncode ≠ 0 then (false, executed + 1, answer.workdir)
        else runBranchScript ctx branchId (executed + 1) rest answer.workdir := rfl
    rw [hperform, hrun]
    by_cases hcode : answer.returncode ≠ 0
    · rw [if_pos hcode, if_pos hcode]
    · rw [if_neg hcode, if_neg hcode]
      exact ih (executed + 1) answer.workdir

theorem ownedCriteriaHop_outcome (branchId : String) (cs : List TaskCriterion)
    (k : List CriterionResult → HopProg) (t : Tree) (led : ℕ → Option OpResult) :
    outcomeOf py ctx tool led (ownedCriteriaHop branchId cs k) t =
      (scoreAll py ctx (FileTree.ofFiles (FileTree.filesUnder t [branchId])) cs).bind
        fun rs => outcomeOf py ctx tool led (k rs) t := by
  induction cs generalizing k with
  | nil => rfl
  | cons c cs ih =>
    unfold ownedCriteriaHop scoreAll
    simp only [outcomeOf, Prog.run, NodeContext.answer]
    cases hscore : scoreCriterion py ctx (FileTree.ofFiles (FileTree.filesUnder t [branchId])) c with
    | error e => rfl
    | ok r =>
      have htail := ih fun rs => k (r :: rs)
      refine htail.trans ?_
      cases scoreAll py ctx (FileTree.ofFiles (FileTree.filesUnder t [branchId])) cs with
      | error e => rfl
      | ok rs => rfl

theorem branchResultsHop_outcome (s : RunState) (b : BranchState) (ok : Bool)
    (k : List CriterionResult → HopProg) (t : Tree) (led : ℕ → Option OpResult) :
    outcomeOf py ctx tool led (branchResultsHop s b ok k) t =
      (branchResults py ctx s b ok t).bind fun rs => outcomeOf py ctx tool led (k rs) t := by
  unfold branchResultsHop branchResults
  cases b.kind with
  | decomposition => exact ownedCriteriaHop_outcome py ctx tool b.branchId _ k t led
  | portfolio => rfl

theorem branchHop_outcome (s : RunState) (b : BranchState) (k : BranchState → HopProg) (t : Tree)
    (led : ℕ → Option OpResult) :
    outcomeOf py ctx tool led (branchHop ctx s b k) t =
      (runBranch py ctx s b t).bind fun (b', t') => outcomeOf py ctx tool led (k b') t' := by
  unfold branchHop runBranch
  by_cases hlease : (leaseExcess b (scriptOrTrue ctx).length).isSome = true
  · simp only [if_pos hlease]
    rfl
  · simp only [if_neg hlease, branchScriptHop_outcome, branchResultsHop_outcome]
    cases branchResults py ctx s b (runBranchScript ctx b.branchId 0 (scriptOrTrue ctx) t).1
        (runBranchScript ctx b.branchId 0 (scriptOrTrue ctx) t).2.2 with
    | error e => rfl
    | ok results => rfl

theorem branchesLoopHop_outcome (s : RunState) (bs : List BranchState) (m : AttemptMeter)
    (attempts : ℕ) (k : List BranchState × AttemptMeter × ℕ → HopProg) (t : Tree)
    (led : ℕ → Option OpResult) :
    outcomeOf py ctx tool led (branchesLoopHop ctx s bs m attempts k) t =
      (runBranches py ctx s bs m attempts t).bind fun run =>
        outcomeOf py ctx tool led (k (run.branches, run.meter, run.attemptsCharged)) run.workdir := by
  induction bs generalizing m attempts k t with
  | nil => rfl
  | cons b bs ih =>
    unfold branchesLoopHop runBranches
    by_cases hpending : b.status.pending = true
    · simp only [if_pos hpending, branchHop_outcome]
      cases runBranch py ctx s b t with
      | error e => rfl
      | ok done =>
        obtain ⟨b', t'⟩ := done
        refine (ih _ _ _ _).trans ?_
        show _ = Except.bind (Except.bind (runBranches py ctx s bs _ _ t') _) _
        cases runBranches py ctx s bs
            (m.charge b'.spent.toolCalls b'.spent.tokens b'.spent.costUsd)
            (attempts + b'.spent.attempts) t' with
        | error e => rfl
        | ok rest => rfl
    · simp only [if_neg hpending]
      refine (ih _ _ _ _).trans ?_
      show _ = Except.bind (Except.bind (runBranches py ctx s bs _ _ t) _) _
      cases runBranches py ctx s bs m attempts t with
      | error e => rfl
      | ok rest => rfl

theorem branchesHop_outcome (s : RunState) (attemptNo : ℕ) (t : Tree)
    (led : ℕ → Option OpResult) :
    outcomeOf py ctx tool led (branchesHop ctx s attemptNo) t =
      solveBranches py ctx s attemptNo t := by
  unfold branchesHop solveBranches
  rw [branchesLoopHop_outcome]
  cases runBranches py ctx s s.branches (AttemptMeter.openedRetiring s) 0 t with
  | error e => rfl
  | ok run =>
    dsimp only [Except.bind, bind]
    cases run.meter.preflight (ctx.elapsedS 0) run.attemptsCharged 0 with
    | some exhausted => rfl
    | none => rfl

/-- With no row for its attempt yet, an uncut hop against the ledger is `solve`. -/
theorem solveHop_outcome (skill : SkillApplication) (s : RunState) (t : Tree)
    {led : ℕ → Option OpResult} (hled : ∀ k, led k = none) (hskill : Applies ctx tool skill) :
    outcomeOf py ctx tool led (solveHop ctx skill s) t = solve py ctx s t := by
  have hfresh : ∀ k, 0 ≤ k → led k = none := fun k _ => hled k
  unfold solveHop solve
  cases solvePath ctx s with
  | error e => rfl
  | ok path =>
    cases path with
    | branches => exact branchesHop_outcome py ctx tool s _ t led
    | applicator => exact applicatorHop_outcome py ctx tool skill s _ t (hled 0) hskill
    | scratch => exact scratchObserveActHop_outcome py ctx tool s _ _ 0 none _ t hfresh
    | modelRequired => rfl
    | tools script => exact scriptViaToolsHop_outcome py ctx tool s _ 0 script _ t hfresh
    | legacy script => exact legacyScriptHop_outcome py ctx tool s _ 0 script _ t hfresh

end Recertia.Graph
