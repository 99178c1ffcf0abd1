import Mathlib.Algebra.Order.Field.Rat
import Mathlib.Tactic.Common
import Recertia.Lib.Text

/-! Locked criteria, their results, and the sensitivity proofs that make a required criterion
count. Weights and times are rationals. -/
namespace Recertia.Graph

inductive Lens
  | correctness | currency | provenance | scope | safety
  deriving DecidableEq, Repr

inductive Isolation
  | freshContext | inheritsContext
  deriving DecidableEq, Repr

inductive CriterionKind
  | command | assertion | schema | metric | judge
  deriving DecidableEq, Repr

inductive Op
  | lt | lte | gt | gte | eq
  deriving DecidableEq, Repr

/-- The fields that each kind requires; a criterion of a kind without them cannot be built. -/
inductive Check
  | command (run : String) (expectExit : Int)
  | assertion (expr : String)
  | schema (target schemaRef : String)
  | metric (metric : String) (op : Op) (threshold : ℚ)
  | judge (rubric : String)
  deriving DecidableEq

def Check.kind : Check → CriterionKind
  | .command .. => .command
  | .assertion .. => .assertion
  | .schema .. => .schema
  | .metric .. => .metric
  | .judge .. => .judge

/-- The executable fields, which the evidence hash covers. A judge is always in a fresh
context. -/
structure CriterionFields where
  id : String
  check : Check
  lens : Option Lens := none
  timeoutS : ℕ := 300
  weight : ℚ := 1
  deriving DecidableEq

structure SensitivityProof where
  criterionId : String
  negativeFixture : String
  rejected : Bool
  checkedAgainst : Option String
  evidenceHash : Option String
  deriving DecidableEq

inductive CriterionSource
  | caller | taskClassTemplate | critic
  deriving DecidableEq, Repr

structure TaskCriterion extends CriterionFields where
  sensitivityProof : Option SensitivityProof := none
  source : CriterionSource := .caller
  preregistered : Bool := true
  deriving DecidableEq

namespace TaskCriterion

def kind (c : TaskCriterion) : CriterionKind := c.check.kind

def isRequired (c : TaskCriterion) : Bool := decide (1 ≤ c.weight)

end TaskCriterion

/-- `sha256` over the executable fields and the fingerprint of the negative fixture. -/
abbrev EvidenceHash := CriterionFields → String → String

def sensitivityProofBinds (hash : EvidenceHash) (c : TaskCriterion) : Bool :=
  match c.sensitivityProof with
  | none => false
  | some bound =>
    bound.rejected &&
      match bound.evidenceHash with
      | none => false
      | some evidence =>
        evidence != "" &&
          match Text.dropPrefix? (bound.checkedAgainst.getD "") "sha256:" with
          | none => false
          | some fingerprint => evidence == hash c.toCriterionFields fingerprint

/-- `is_required and is_preregistered_and_proven` -/
def effectivelyRequired (hash : EvidenceHash) (c : TaskCriterion) : Bool :=
  c.isRequired && sensitivityProofBinds hash c

structure CriterionResult where
  criterionId : String
  kind : Option CriterionKind := none
  passed : Bool
  weight : ℚ := 1
  isolation : Option Isolation := none
  lens : Option Lens := none
  contextHash : Option String := none
  exitCode : Option Int := none
  outputExcerpt : String := ""
  errored : Bool := false
  durationS : ℚ := 0
  deriving DecidableEq

def clampCriterionTimeouts (ceilingS : ℕ) (criteria : List TaskCriterion) : List TaskCriterion :=
  criteria.map fun c => if ceilingS < c.timeoutS then { c with timeoutS := ceilingS } else c

/-! Failure signals and verdicts, and the exceptions a node can raise itself. -/

inductive FailureClass
  | environment | tool | retrieval | plan | execution | criteria | budget | merge
  deriving DecidableEq, Repr

def FailureClass.text : FailureClass → String
  | .environment => "environment"
  | .tool => "tool"
  | .retrieval => "retrieval"
  | .plan => "plan"
  | .execution => "execution"
  | .criteria => "criteria"
  | .budget => "budget"
  | .merge => "merge"

def classesExcludedFromTrust : List FailureClass := [.environment, .tool, .budget, .merge]

inductive FailureSource
  | orchestrator | solver | validator | join
  deriving DecidableEq, Repr

structure FailureSignal where
  source : FailureSource
  detail : String
  classHint : Option FailureClass := none
  deriving DecidableEq

structure FailureVerdict where
  failureClass : FailureClass
  evidence : List String := []
  implicatedSkill : Option (String × ℕ) := none
  countsAgainstTrust : Bool
  escalateToHuman : Bool := false
  deriving DecidableEq

def FailureVerdict.isConsistent (v : FailureVerdict) : Bool :=
  (v.countsAgainstTrust == !classesExcludedFromTrust.contains v.failureClass) &&
    (v.escalateToHuman == (v.failureClass == .criteria))

/-- The exceptions that the code of a node raises, with their message. -/
inductive NodeError
  | valueError (detail : String)
  | validationError (detail : String)
  | assertionError (detail : String)
  | indexError (detail : String)
  | fileNotFoundError (detail : String)
  deriving DecidableEq

end Recertia.Graph
