import Mathlib.Data.List.Basic
import Recertia.Contract.Criteria

/-! Goals and their compilation to locked criteria. -/
namespace Recertia.Graph

/-- What the language gives: `repr`, `str.isalpha` on one character, and `sha256` evidence. -/
structure Platform where
  repr : String → String
  isAlpha : Char → Bool
  evidenceHash : EvidenceHash

inductive DesiredCheck
  | fileExists (path : String)
  | fileContains (path pattern : String)
  | command (run : String) (expectExit : Int)
  | assertion (expr : String)
  | schema (target schemaRef : String)
  | metric (metric : String) (op : Op) (threshold : ℚ)
  | judge (rubric : String)
  deriving DecidableEq

structure DesiredState where
  id : String
  check : DesiredCheck
  weight : ℚ := 1
  timeoutS : ℕ := 300
  deriving DecidableEq

def DesiredState.isHard (d : DesiredState) : Bool :=
  decide (1 ≤ d.weight) && match d.check with
    | .judge _ => false
    | _ => true

inductive ConstraintKind
  | mustNotModify | mustPassCommand | budgetCeiling | noExternalEffects
  deriving DecidableEq, Repr

def ConstraintKind.text : ConstraintKind → String
  | .mustNotModify => "must_not_modify"
  | .mustPassCommand => "must_pass_command"
  | .budgetCeiling => "budget_ceiling"
  | .noExternalEffects => "no_external_effects"

inductive ConstraintValue
  | str (s : String)
  | float (q : ℚ)
  | list (xs : List String)
  deriving DecidableEq

structure Constraint where
  id : String
  kind : ConstraintKind
  value : ConstraintValue
  weight : ℚ := 1
  deriving DecidableEq

inductive StrategyHint
  | abstain | portfolio | decomposition
  deriving DecidableEq, Repr

structure Goal where
  desired : List DesiredState
  constraints : List Constraint := []
  context : Option String := none
  strategyHint : Option StrategyHint := none
  atLeastOneHardCriterion : desired.any DesiredState.isHard = true

def shellMeta : List Char := ";|&$`<>()\x7b\x7d!\\'\"*?[]~".toList

def isShellSafe (c : Char) : Bool :=
  c.isAlphanum || "_@%+=:,./-".toList.contains c

def shlexQuote (s : String) : String :=
  if s.toList.all isShellSafe then s else "'" ++ s ++ "'"

/-- Rejects absolute paths, `..` and shell metacharacters, then quotes. -/
def quotedRelativePath (py : Platform) (what path : String) : Except NodeError String :=
  if path = "" ∨ path ≠ Text.strip path then
    .error (.valueError (what ++ " path is empty or padded with whitespace"))
  else if path.toList.any fun c => shellMeta.contains c || Text.isSpace c || c.toNat < 32 then
    .error (.valueError (what ++ " path contains shell metacharacters: " ++ py.repr path))
  else if path.toList.head? = some '/' then
    .error (.valueError (what ++ " path must be relative to the workdir: " ++ py.repr path))
  else if path.toList[1]? = some ':' ∧ (path.toList.head?.any py.isAlpha) = true then
    .error (.valueError (what ++ " path must be relative to the workdir: " ++ py.repr path))
  else if (path.toList.splitOn '/').contains "..".toList then
    .error (.valueError (what ++ " path must not contain '..': " ++ py.repr path))
  else .ok (shlexQuote path)

def assertionString (py : Platform) (what value : String) : Except NodeError String :=
  if value.toList.any fun c => c.toNat = 0 || c = '\n' || c = '\r' then
    .error (.valueError (what ++ " contains a newline or NUL"))
  else .ok (py.repr value)

def desiredToCriterion (py : Platform) (source : CriterionSource) (d : DesiredState) :
    Except NodeError TaskCriterion :=
  let what := "DesiredState " ++ py.repr d.id
  let criterion (check : Check) : TaskCriterion :=
    { id := d.id, check, weight := d.weight, timeoutS := d.timeoutS, source }
  match d.check with
  | .fileExists path => do
    let _ ← quotedRelativePath py what path
    let p ← assertionString py what path
    return criterion (.assertion ("file_exists(" ++ p ++ ")"))
  | .fileContains path pattern => do
    let _ ← quotedRelativePath py what path
    let p ← assertionString py what path
    let q ← assertionString py (what ++ " pattern") pattern
    return criterion (.assertion ("file_contains(" ++ p ++ ", " ++ q ++ ")"))
  | .command run expectExit => .ok (criterion (.command run expectExit))
  | .assertion expr => .ok (criterion (.assertion expr))
  | .schema target schemaRef => .ok (criterion (.schema target schemaRef))
  | .metric metric op threshold => .ok (criterion (.metric metric op threshold))
  | .judge rubric => .ok (criterion (.judge rubric))

/-- The paths of a freeze; `_paths` of the sealing step reads them the same way. -/
def ConstraintValue.paths? : ConstraintValue → Option (List String)
  | .str s => some [s]
  | .list xs => some xs
  | .float _ => none

def constraintToCriterion (py : Platform) (source : CriterionSource) (c : Constraint) :
    Except NodeError TaskCriterion :=
  let what := "Constraint " ++ py.repr c.id
  let command (run : String) : TaskCriterion :=
    { id := c.id, check := .command run 0, weight := c.weight, source }
  match c.kind with
  | .mustPassCommand =>
    match c.value with
    | .str run => .ok (command run)
    | _ => .error (.valueError (what ++ " kind=must_pass_command requires str value"))
  | .mustNotModify =>
    match c.value.paths? with
    | none => .error (.valueError (what ++ " kind=must_not_modify requires str or list[str]"))
    | some paths => do
      let quoted ← paths.mapM (quotedRelativePath py what)
      return command (if quoted = [] then "true"
        else " && ".intercalate (quoted.map fun p => "test -e " ++ p))
  | kind => .error (.valueError
      (what ++ " kind='" ++ kind.text ++ "' is not compilable to a criterion"))

/-- Budget and external-effect constraints are not turned into criteria. -/
def compileGoal (py : Platform) (source : CriterionSource) (goal : Goal) :
    Except NodeError (List TaskCriterion) := do
  let desired ← goal.desired.mapM (desiredToCriterion py source)
  let constraints ← (goal.constraints.filter fun c =>
    c.kind ≠ .budgetCeiling ∧ c.kind ≠ .noExternalEffects).mapM (constraintToCriterion py source)
  return desired ++ constraints

end Recertia.Graph
