import Recertia.Node.Durable
import Recertia.Node.SolveSpec

/-! What a resumed solve hop executes again. -/
namespace Recertia.Graph

open Durable
open FileTree (Tree)

theorem scriptViaToolsHop_owned (ctx : NodeContext) (s : RunState) (attemptNo opSeq : ℕ)
    (script : List String) (m : AttemptMeter) :
    (scriptViaToolsHop ctx s attemptNo opSeq script m).Owned Work.opSeq := by
  induction script generalizing opSeq m with
  | nil => exact trivial
  | cons command rest ih =>
    unfold scriptViaToolsHop
    split
    · exact trivial
    · refine ⟨⟨rfl, fun _ => trivial⟩, fun r => ?_⟩
      cases r with
      | command returncode flaky usage =>
        dsimp only
        split
        · exact trivial
        · exact ih _ _
      | empty | refused | ran | applied => exact trivial

theorem legacyScriptHop_owned (ctx : NodeContext) (s : RunState) (attemptNo opSeq : ℕ)
    (script : List String) (m : AttemptMeter) :
    (legacyScriptHop ctx s attemptNo opSeq script m).Owned Work.opSeq := by
  induction script generalizing opSeq m with
  | nil => exact trivial
  | cons command rest ih =>
    refine ⟨⟨rfl, fun _ => trivial⟩, fun r => ?_⟩
    cases r with
    | command returncode flaky usage =>
      dsimp only
      split
      · exact trivial
      · exact ih _ _
    | empty | refused | ran | applied => exact trivial

theorem scratchStepOp_within (step : ℕ) : (scratchStepOp step).Within Work.opSeq step := by
  refine ⟨rfl, fun reply => ?_⟩
  cases reply with
  | proposed cost command => exact ⟨rfl, fun _ => trivial⟩
  | error | empty | refused => exact trivial

theorem scratchObserveActHop_owned (ctx : NodeContext) (s : RunState) (attemptNo : ℕ)
    (remaining step : ℕ) (lastError : Option String) (m : AttemptMeter) :
    (scratchObserveActHop ctx s attemptNo remaining step lastError m).Owned Work.opSeq := by
  induction remaining generalizing step lastError m with
  | zero => exact trivial
  | succ remaining ih =>
    unfold scratchObserveActHop
    split
    · exact trivial
    · refine ⟨scratchStepOp_within step, fun r => ?_⟩
      cases r with
      | empty cost => exact ih _ _ _
      | refused cost reason => exact ih _ _ _
      | ran cost command usage returncode =>
        dsimp only
        split
        · exact ih _ _ _
        · exact trivial
      | command | applied => exact trivial

theorem skillOp_within (skill : SkillApplication) : (skillOp skill).Within Work.opSeq 0 := by
  induction skill with
  | ret | raise => exact trivial
  | perform dispatched k ih => exact ⟨rfl, ih⟩

theorem applicatorHop_owned (ctx : NodeContext) (skill : SkillApplication) (s : RunState)
    (attemptNo : ℕ) : (applicatorHop ctx skill s attemptNo).Owned Work.opSeq := by
  refine ⟨skillOp_within skill, fun r => ?_⟩
  cases r with
  | applied a =>
    dsimp only
    split
    · exact trivial
    · exact trivial
  | command | empty | refused | ran => exact trivial

theorem branchScriptHop_owned {branchId : String} {k : Bool × ℕ → HopProg}
    (hk : ∀ x, (k x).Owned Work.opSeq) (executed : ℕ) (script : List String) :
    (branchScriptHop branchId executed script k).Owned Work.opSeq := by
  induction script generalizing executed with
  | nil => exact hk _
  | cons command rest ih =>
    refine ⟨rfl, fun returncode => ?_⟩
    dsimp only
    split
    · exact hk _
    · exact ih _

theorem ownedCriteriaHop_owned {branchId : String} {k : List CriterionResult → HopProg}
    (hk : ∀ rs, (k rs).Owned Work.opSeq) (cs : List TaskCriterion) :
    (ownedCriteriaHop branchId cs k).Owned Work.opSeq := by
  induction cs generalizing k with
  | nil => exact hk _
  | cons c cs ih =>
    refine ⟨rfl, fun answer => ?_⟩
    cases answer with
    | error e => exact trivial
    | ok r => exact ih fun rs => hk _

theorem branchHop_owned {ctx : NodeContext} {s : RunState} {b : BranchState}
    {k : BranchState → HopProg} (hk : ∀ b', (k b').Owned Work.opSeq) :
    (branchHop ctx s b k).Owned Work.opSeq := by
  unfold branchHop
  dsimp only
  split
  · exact hk _
  · refine branchScriptHop_owned (fun x => ?_) 0 _
    unfold branchResultsHop
    split
    · exact ownedCriteriaHop_owned (fun rs => hk _) _
    · exact hk _

theorem branchesLoopHop_owned {ctx : NodeContext} {s : RunState} (bs : List BranchState)
    (m : AttemptMeter) (attempts : ℕ) {k : List BranchState × AttemptMeter × ℕ → HopProg}
    (hk : ∀ x, (k x).Owned Work.opSeq) :
    (branchesLoopHop ctx s bs m attempts k).Owned Work.opSeq := by
  induction bs generalizing m attempts k with
  | nil => exact hk _
  | cons b bs ih =>
    unfold branchesLoopHop
    split
    · exact branchHop_owned fun b' => ih _ _ fun x => hk _
    · exact ih _ _ fun x => hk _

theorem branchScriptHop_bare {branchId : String} {k : Bool × ℕ → HopProg}
    (hk : ∀ x, (k x).Bare) (executed : ℕ) (script : List String) :
    (branchScriptHop branchId executed script k).Bare := by
  induction script generalizing executed with
  | nil => exact hk _
  | cons command rest ih =>
    intro returncode
    dsimp only
    split
    · exact hk _
    · exact ih _

theorem ownedCriteriaHop_bare {branchId : String} {k : List CriterionResult → HopProg}
    (hk : ∀ rs, (k rs).Bare) (cs : List TaskCriterion) :
    (ownedCriteriaHop branchId cs k).Bare := by
  induction cs generalizing k with
  | nil => exact hk _
  | cons c cs ih =>
    intro answer
    cases answer with
    | error e => exact trivial
    | ok r => exact ih fun rs => hk _

theorem branchHop_bare {ctx : NodeContext} {s : RunState} {b : BranchState}
    {k : BranchState → HopProg} (hk : ∀ b', (k b').Bare) : (branchHop ctx s b k).Bare := by
  unfold branchHop
  dsimp only
  split
  · exact hk _
  · refine branchScriptHop_bare (fun x => ?_) 0 _
    unfold branchResultsHop
    split
    · exact ownedCriteriaHop_bare (fun rs => hk _) _
    · exact hk _

theorem branchesLoopHop_bare {ctx : NodeContext} {s : RunState} (bs : List BranchState)
    (m : AttemptMeter) (attempts : ℕ) {k : List BranchState × AttemptMeter × ℕ → HopProg}
    (hk : ∀ x, (k x).Bare) : (branchesLoopHop ctx s bs m attempts k).Bare := by
  induction bs generalizing m attempts k with
  | nil => exact hk _
  | cons b bs ih =>
    unfold branchesLoopHop
    split
    · exact branchHop_bare fun b' => ih _ _ fun x => hk _
    · exact ih _ _ fun x => hk _

/-- A fan-out hop runs no operation. -/
theorem branchesHop_bare (ctx : NodeContext) (s : RunState) (attemptNo : ℕ) :
    (branchesHop ctx s attemptNo).Bare := by
  refine branchesLoopHop_bare _ _ _ fun x => ?_
  dsimp only
  split
  · exact trivial
  · exact trivial

/-- On every path a unit inside an operation carries that operation's number. -/
theorem solveHop_owned (ctx : NodeContext) (skill : SkillApplication) (s : RunState) :
    (solveHop ctx skill s).Owned Work.opSeq := by
  unfold solveHop
  dsimp only
  split
  · exact trivial
  · refine branchesLoopHop_owned _ _ _ fun x => ?_
    dsimp only
    split
    · exact trivial
    · exact trivial
  · exact applicatorHop_owned _ _ _ _
  · exact scratchObserveActHop_owned _ _ _ _ _ _ _
  · exact trivial
  · exact scriptViaToolsHop_owned _ _ _ _ _ _
  · exact legacyScriptHop_owned _ _ _ _ _ _

/-- The rows of the attempt's operations, and what a solve hop does before it is killed. -/
abbrev OpLedger := ℕ → Option OpResult

abbrev HopEvent := Event Work ℕ OpResult

/-- No command and no criterion check among `es` is executed again by a solve hop that resumes
from the same state, whatever it is answered. -/
def NeverRepeated (s : RunState) (led : OpLedger) (es : List HopEvent) : Prop :=
  ∀ ctx skill fs o, Prog.Trace (after led es) (solveHop ctx skill s) fs o →
    ∀ w, w.isCheckOrCommand = true → Event.performed w ∈ es → Event.performed w ∉ fs

/-- For every kill point of a solve hop. What had completed is not executed again exactly when
it had completed inside operations whose rows were written before the kill, and those rows are
what the resumed hop reads. With dispatched branches nothing runs inside an operation, and
exactly the kill before the first branch command is harmless. -/
theorem never_repeated_on_resume (ctx : NodeContext) (skill : SkillApplication) (s : RunState)
    (led : OpLedger) (es : List HopEvent) (o : Option HopOutcome)
    (h : Prog.Trace led (solveHop ctx skill s) es o) :
    (NeverRepeated s led es ↔ ∀ w, w.isCheckOrCommand = true → Event.performed w ∈ es →
      ∃ opSeq r, w.opSeq = some opSeq ∧ Event.recorded opSeq r ∈ es) ∧
    (∀ opSeq r, Event.recorded opSeq r ∈ es → after led es opSeq = some r) ∧
    ((s.branches.any fun b => b.status == .dispatched) = true →
      (NeverRepeated s led es ↔
        ∀ w, w.isCheckOrCommand = true → Event.performed w ∉ es)) := by
  have hiff : NeverRepeated s led es ↔ ∀ w, w.isCheckOrCommand = true →
      Event.performed w ∈ es → Settled Work.opSeq es w := by
    rw [← never_repeated_iff h (fun q => ∃ ctx skill, q = solveHop ctx skill s)
      ⟨ctx, skill, rfl⟩ (by rintro q ⟨ctx, skill, rfl⟩; exact solveHop_owned ctx skill s)]
    constructor
    · rintro hnever q ⟨ctx, skill, rfl⟩
      exact hnever ctx skill
    · intro hnever ctx skill
      exact hnever _ ⟨ctx, skill, rfl⟩
  refine ⟨hiff, fun opSeq r => after_of_recorded h, fun hfan => ?_⟩
  have hpath : solveHop ctx skill s = branchesHop ctx s (s.attemptNo + 1) := by
    unfold solveHop
    rw [(solvePath_branches_iff ctx s).mpr hfan]
  rw [hpath] at h
  rw [hiff]
  constructor
  · intro hsettled w hcounted hw
    obtain ⟨opSeq, r, -, hr⟩ := hsettled w hcounted hw
    exact recorded_notMem_of_bare h (branchesHop_bare ctx s _) opSeq r hr
  · intro hnone w hcounted hw
    exact absurd hw (hnone w hcounted)

/-- A branch of a portfolio, dispatched and not yet run. -/
def dispatchedBranch : BranchState :=
  { branchId := "run-p0", strategy := .scratch, workspaceRef := ["run-p0"], budget := default }

def dispatchedState : RunState :=
  { runId := "run"
    task := { request := some "touch the output"
              requireGoalOrRequest := Or.inr ⟨"touch the output", rfl, by decide +kernel⟩ }
    strategy := some .portfolio
    branches := [dispatchedBranch] }

def touchHop : NodeContext := { script := some ["touch out"] }

def noSkill : SkillApplication := .ret { ok := true, toolCalls := 0 }

theorem dispatchedState_trace (led : OpLedger) :
    Prog.Trace led (solveHop touchHop noSkill dispatchedState)
      [.performed (.branchCommand "run-p0" 0 "touch out")] none := by
  have hlease : (leaseExcess dispatchedBranch (scriptOrTrue touchHop).length).isSome = false := by
    decide +kernel
  have hpending : dispatchedBranch.status.pending = true := rfl
  simp only [solveHop, branchesHop, dispatchedState, branchesLoopHop, hpending, branchHop,
    hlease, if_true, Bool.false_eq_true, if_false]
  exact .perform (a := (0 : Int)) (.cut _ _)

/-- A kill behind the first command of a branch: the resumed hop runs that command again. -/
theorem branch_command_repeated :
    Prog.Trace (fun _ => none) (solveHop touchHop noSkill dispatchedState)
        [.performed (.branchCommand "run-p0" 0 "touch out")] none ∧
      ¬ NeverRepeated dispatchedState (fun _ => none)
        [.performed (.branchCommand "run-p0" 0 "touch out")] := by
  refine ⟨dispatchedState_trace _, fun hnever => ?_⟩
  have hagain := hnever touchHop noSkill _ none (dispatchedState_trace _)
    (.branchCommand "run-p0" 0 "touch out") rfl List.mem_cons_self
  exact hagain List.mem_cons_self

/-- The same script in the parent workspace. -/
def scriptedState : RunState := { dispatchedState with branches := [] }

/-- The kill comes behind the row of the first command. -/
def recordedEvents : List HopEvent :=
  [.performed (.command 0 "touch out"), .recorded 0 (.command 0 false {})]

theorem scriptedState_trace :
    Prog.Trace (fun _ => none) (solveHop touchHop noSkill scriptedState) recordedEvents none := by
  have hpath : solvePath touchHop scriptedState = .ok (.legacy ["touch out"]) := by decide +kernel
  unfold solveHop
  rw [hpath]
  have hbody : Body.Trace
      (.perform (.command 0 "touch out") fun returncode =>
        .ret (.command returncode false {}) : Body Work Work.Answer OpResult Raised)
      [.command 0 "touch out"] (some (.ok (.command 0 false {}))) :=
    .perform (a := (0 : Int)) (.ret _)
  exact .recorded  rfl hbody (.cut _ _)

/-- A kill behind the row of a command: the resumed hop reads the row. -/
theorem never_repeated_on_resume_recorded :
    Event.performed (.command 0 "touch out") ∈ recordedEvents ∧
      NeverRepeated scriptedState (fun _ => none) recordedEvents := by
  refine ⟨List.mem_cons_self, ((never_repeated_on_resume touchHop noSkill scriptedState
    (fun _ => none) recordedEvents none scriptedState_trace).1).mpr fun w _ hw => ?_⟩
  have hfirst : w = .command 0 "touch out" := by simpa [recordedEvents] using hw
  rw [hfirst]
  exact ⟨0, .command 0 false {}, rfl, by simp [recordedEvents]⟩

end Recertia.Graph
