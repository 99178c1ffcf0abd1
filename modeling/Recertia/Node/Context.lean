import Recertia.Contract.Routes

/-! What a node receives besides the state: which services are configured, and what they answer
during this hop. -/
namespace Recertia.Graph

open FileTree (Path Tree)

/-- The exit code of a command and the workspace it leaves. -/
structure CommandAnswer where
  returncode : Int
  workdir : Tree

/-- Tokens and cost that a window over the run-scoped counters shows. -/
structure Usage where
  tokens : ℕ := 0
  costUsd : ℚ := 0

/-- One observe-act step of the model. -/
inductive ScratchAnswer
  | modelError (exc : String)
  | empty (cost : Usage)
  | refused (cost : Usage) (command reason : String)
  | ran (cost : Usage) (command : String) (usage : Usage) (answer : CommandAnswer)

/-- The summary of a skill application; `toolCalls` is the number of calls it dispatched. -/
structure ApplyAnswer where
  ok : Bool
  transcriptRef : Option String := none
  error : Option String := none
  mergeTimeout : Bool := false
  toolCalls : ℕ
  usage : Usage := {}
  workdir : Tree

/-- How the command of a criterion ends; it raises where the command or its output is no text. -/
inductive CommandOutcome
  | exited (code : Int) (output : String)
  | unavailable (exc : String)
  | timedOut
  | raised (exc : String)

/-- What an assertion, schema or metric check found. -/
structure Measured where
  passed : Bool
  excerpt : String := ""
  errored : Bool := false

/-- A verifier's reply; `pass` says that its first line starts with `PASS`. -/
structure JudgeAnswer where
  pass : Bool
  text : String := ""
  contextHash : String := ""
  latencyS : ℚ := 0

/-- What authoring (`distill_success`) makes of the transcript of a solved attempt. -/
inductive Authored
  | noReplayableSteps
  | version (draft : Draft) (parameterisable contextFree checkable bounded : Bool)

structure NodeContext where
  script : Option (List String) := none
  model : Bool := false
  verifierModel : Bool := false
  sharesIdentity : Bool := false
  tools : Bool := false
  transcripts : Bool := false
  applicator : Bool := false
  affordances : Bool := false
  store : Bool := false
  reviewer : Bool := false
  deterministicGuide : Bool := false
  maxCriterionTimeoutS : Option ℕ := none
  -- intake
  freezeScript : List String → Except NodeError String := fun _ => .ok ""
  negativeRun : TaskCriterion → Bool × String := fun _ => (false, "")
  negativeFixture : String := ""
  -- retrieve
  retrieved : List SkillCandidateRef := []
  -- engine
  snapshotSuffix : String := ""
  -- solve
  -- `elapsedS k` is the k-th reading of the attempt's clock.
  elapsedS : ℕ → ℚ := fun _ => 0
  branchElapsedS : String → ℚ := fun _ => 0
  command : ℕ → String → Tree → CommandAnswer := fun _ _ t => ⟨0, t⟩
  branchCommand : String → ℕ → String → Tree → CommandAnswer := fun _ _ _ t => ⟨0, t⟩
  toolUsage : ℕ → Usage := fun _ => {}
  shellIsFlaky : Bool := false
  skillScript : SkillCandidateRef → List String := fun _ => []
  modelReply : String := ""
  scratchMaxSteps : ℕ := 5
  scratchStep : ℕ → Tree → ScratchAnswer := fun _ t => .ran {} "true" {} ⟨0, t⟩
  application : Tree → ApplyAnswer := fun t => { ok := true, toolCalls := 0, workdir := t }
  transcriptHash : String := ""
  -- validate and join
  execute : TaskCriterion → Tree → CommandOutcome := fun _ _ => .exited 0 ""
  measure : TaskCriterion → Tree → Measured := fun _ _ => { passed := true }
  judge : TaskCriterion → Tree → JudgeAnswer := fun _ _ => { pass := true }
  sameStat : Path → Path → Bool := fun _ _ => false
  -- classify_failure and evolve
  toolMatches : String → Bool := fun _ => false
  deadEndApplies : String → Bool := fun _ => false
  -- distill, review and store
  authored : Except NodeError Authored := .ok .noReplayableSteps
  nearDuplicate : Option (String × ℕ) := none
  applicable : Bool := true
  guideLeak : Bool := false
  approves : Bool := false
  hygieneClean : Bool := true

/-- The updated state, the chosen route, and the workspace that the node leaves. -/
structure NodeOutcome where
  state : RunState
  route : Option RouteName
  workdir : Tree

end Recertia.Graph
