import Mathlib.Data.Prod.Lex
import Mathlib.Data.String.Basic
import Mathlib.Order.OrderDual
import Recertia.Contract.RunState
import Recertia.Lib.Keyset
import Recertia.Skill.Lifecycle

/-! The observations of the eval store and the queries that lift, retirement and the field off-ramp
read of them (`evals/store.py`). -/
namespace Recertia.Evals

open Graph (Arm)
open Keyset (order)
open Skill (BinomialSample SkillRef)

/-- A row of `observations`, without the columns that no query here reads. -/
structure Observation where
  taskClass : String
  arm : Arm := .treatment
  snapshotId : String
  firstAttemptSuccess : Bool
  terminal : Option String := none
  isEvalFixture : Bool := false
  strategy : Option String := none
  skillId : Option String := none
  skillVersion : Option ℕ := none
  suppressedSkillId : Option String := none
  suppressedSkillVersion : Option ℕ := none
  validNonJudgeEvidence : Bool := false
  recordedAt : String
  deriving DecidableEq

/-- The observations by their run id, the primary key. -/
abbrev EvalStore := Table String Observation

abbrev Row := String × Observation

/-- `FAITHFULNESS_STRATEGY_PREFIX` -/
def faithfulnessPrefix : List Char := "faithfulness:".toList

/-- `strategy.startswith("faithfulness:")` -/
def Observation.tagged (o : Observation) : Bool :=
  faithfulnessPrefix.isPrefixOf (o.strategy.getD "").toList

/-- `strategy IS NULL OR strategy NOT LIKE 'faithfulness:%'`; `LIKE` has no case in ASCII. -/
def Observation.notLikeTag (o : Observation) : Bool :=
  o.strategy.all fun strategy =>
    !faithfulnessPrefix.isPrefixOf (strategy.toList.map Char.toLower)

/-- `ORDER BY recorded_at, run_id` -/
def stamp (row : Row) : String ×ₗ String := toLex (row.2.recordedAt, row.1)

/-- `SELECT ... WHERE keep`, with the latest rows first; sums and counts read no order. -/
def select (store : EvalStore) (keep : Observation → Bool) : List Observation :=
  ((order stamp store.rows).filter fun row => keep row.2).map Prod.snd

/-- `AND snapshot_id = ?`, where a snapshot is asked for -/
def inSnapshot (snapshotId : Option String) (o : Observation) : Bool :=
  snapshotId.all fun id => o.snapshotId = id

/-- `SUM(first_attempt_success)` and `COUNT(*)` -/
def sample (rows : List Observation) : BinomialSample where
  successes := rows.countP Observation.firstAttemptSuccess
  trials := rows.length

/-- What `GROUP BY` gives for a key; a key without rows has no group. -/
def groupBy {K β : Type} [DecidableEq K] (key : Observation → K) (f : List Observation → β)
    (rows : List Observation) (k : K) : Option β :=
  match rows.filter fun o => key o = k with
  | [] => none
  | group => some (f group)

variable (store : EvalStore) (taskClass : String) (snapshotId : Option String)

/-- The rows of a class that are neither fixtures nor like a tag. -/
def liftRow (o : Observation) : Bool :=
  o.taskClass = taskClass && !o.isEvalFixture && o.notLikeTag && inSnapshot snapshotId o

def armCounts : Arm → Option BinomialSample :=
  groupBy Observation.arm sample (select store (liftRow taskClass snapshotId))

section Rates

-- The numbers of the rates.
variable {F : Type} [Div F] [Sub F] [NatCast F]

def rate (s : BinomialSample) : F := (s.successes : F) / (s.trials : F)

/-- Per-observation outcomes per arm, in recorded order. -/
def successVectors : Arm → Option (List F) :=
  let rows := (select store fun o =>
    o.taskClass = taskClass && !o.isEvalFixture && inSnapshot snapshotId o).reverse
  groupBy Observation.arm (List.map fun o => ((if o.firstAttemptSuccess then 1 else 0 : ℕ) : F))
    (rows.filter fun o => !o.tagged)

/-- The rate of each snapshot per arm, in the order of the snapshots. -/
def snapshotRateMap : Arm → Option (List (String × F)) :=
  groupBy Observation.arm (fun rows =>
    ((rows.map Observation.snapshotId).dedup.insertionSort (· ≤ ·)).map fun id =>
      (id, rate (sample (rows.filter fun o => o.snapshotId = id))))
    (select store (liftRow taskClass snapshotId))

def snapshotRates (arm : Arm) : Option (List F) :=
  (snapshotRateMap store taskClass snapshotId arm).map (List.map Prod.snd)

inductive SeriesKind
  | snapshot | bernoulli
  deriving DecidableEq, Repr

/-- Treatment rates, control rates, lifts paired on snapshots, and the kind of the series. -/
def varianceInputs : List F × List F × List F × SeriesKind :=
  let treatment := (snapshotRateMap store taskClass snapshotId .treatment).getD []
  let control := (snapshotRateMap store taskClass snapshotId .control).getD []
  if 2 ≤ treatment.length ∨ 2 ≤ control.length then
    let paired := treatment.filterMap fun (id, rate) =>
      (control.find? fun other => other.1 = id).map fun other => rate - other.2
    (treatment.map Prod.snd, control.map Prod.snd, paired, .snapshot)
  else
    let vectors := successVectors store taskClass snapshotId
    ((vectors .treatment).getD [], (vectors .control).getD [], [], .bernoulli)

def armRateSeries : List F × List F :=
  let (treatment, control, _, _) := varianceInputs store taskClass snapshotId
  (treatment, control)

end Rates

/-- The rows that count for the contribution of some version. -/
def contributionRow (arm : Arm) (o : Observation) : Bool :=
  o.taskClass = taskClass && decide (o.arm = arm) && !o.isEvalFixture && o.validNonJudgeEvidence &&
    o.notLikeTag && inSnapshot snapshotId o

def Observation.applied (ref : SkillRef) (o : Observation) : Bool :=
  o.skillId = some ref.skillId ∧ o.skillVersion = some ref.version

def Observation.suppressed (ref : SkillRef) (o : Observation) : Bool :=
  o.suppressedSkillId = some ref.skillId ∧ o.suppressedSkillVersion = some ref.version

/-- Shadow and suppression samples of one version. -/
def contributionSamples (ref : SkillRef) : BinomialSample × BinomialSample :=
  (sample (select store fun o => contributionRow taskClass snapshotId .shadow o && o.applied ref),
    sample (select store fun o =>
      contributionRow taskClass snapshotId .control o && o.suppressed ref))

/-- The samples of every version with evidence. -/
def contributionSamplesBulk (ref : SkillRef) : Option (BinomialSample × BinomialSample) :=
  let shadow := (select store (contributionRow taskClass snapshotId .shadow)).filter
    (Observation.applied ref)
  let suppression := (select store (contributionRow taskClass snapshotId .control)).filter
    (Observation.suppressed ref)
  if shadow.isEmpty ∧ suppression.isEmpty then none
  else some (sample shadow, sample suppression)

/-- The rows of one side of the retrieval ablation. -/
def ablationRow (arm : Arm) (o : Observation) : Bool :=
  o.taskClass = taskClass && decide (o.arm = arm) && !o.isEvalFixture && o.validNonJudgeEvidence &&
    inSnapshot snapshotId o

/-- Samples with retrieval enabled and with retrieval suppressed. -/
def retrievalAblationSamples : BinomialSample × BinomialSample :=
  (sample (select store (ablationRow taskClass snapshotId .treatment)),
    sample (select store (ablationRow taskClass snapshotId .control)))

/-- The version that a row names, if both columns are set. -/
def Observation.ref? (o : Observation) : Option SkillRef :=
  match o.skillId, o.skillVersion with
  | some skillId, some version => some ⟨skillId, version⟩
  | _, _ => none

/-- The rows of the live mix that name a version. -/
def fieldRows : List (SkillRef × Row) :=
  store.rows.filterMap fun row =>
    if row.2.arm = .treatment ∧ row.2.isEvalFixture = false then
      row.2.ref?.map fun ref => (ref, row)
    else none

/-- `ORDER BY skill_id, skill_version, recorded_at DESC, run_id DESC`, read from the end -/
def fieldKey (row : SkillRef × Row) : (String ×ₗ ℕ)ᵒᵈ ×ₗ (String ×ₗ String) :=
  toLex (OrderDual.toDual (toLex (row.1.skillId, row.1.version)), stamp row.2)

def Observation.breaks (o : Observation) : Bool :=
  o.terminal = some "solved" ∨ o.terminal = some "abstained"

def Observation.fails (o : Observation) : Bool :=
  o.terminal = some "unsolved" ∨ o.terminal = some "rejected" ∨ o.terminal = some "error"

/-- The streaks so far and the versions whose streak is over. -/
structure StreakState where
  streaks : SkillRef → Option ℕ := fun _ => none
  broken : List SkillRef := []

def StreakState.breakAt (state : StreakState) (ref : SkillRef) : StreakState where
  streaks := Function.update state.streaks ref (some ((state.streaks ref).getD 0))
  broken := ref :: state.broken

def streakStep (state : StreakState) (row : SkillRef × Row) : StreakState :=
  let ref := row.1
  if state.broken.contains ref then state
  else if row.2.2.breaks then state.breakAt ref
  else if row.2.2.fails then
    { state with
      streaks := Function.update state.streaks ref (some ((state.streaks ref).getD 0 + 1)) }
  else state.breakAt ref

/-- Trailing failures of each version in the live mix. -/
def fieldFailureStreaks : SkillRef → Option ℕ :=
  ((order fieldKey (fieldRows store)).foldl streakStep {}).streaks

end Recertia.Evals
