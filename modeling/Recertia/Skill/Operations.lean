import Mathlib.Algebra.Order.Ring.Unbundled.Rat
import Mathlib.Data.String.Basic
import Recertia.Lib.Transition
import Recertia.Skill.Library
import Recertia.Skill.Lifecycle

/-! The drain of the revocation queue: it marks the versions of a revoked source and the versions
that pin them, with a cap on its writes. -/
namespace Recertia.Skill

/-- `_parse_target`, of the targets that `record` writes. -/
def parseTarget (target : String) : Option SkillRef :=
  let skillId := target.toList.takeWhile (· ≠ '@')
  let version := (target.toList.dropWhile (· ≠ '@')).drop 1
  if skillId = [] ∨ version = [] ∨ !version.all Char.isDigit then none
  else some ⟨String.ofList skillId, version.foldl (fun n c => 10 * n + (c.toNat - 48)) 0⟩

/-- `LineageIndex.lookup` -/
def lookup (index : LineageIndex) (item : Revoke) : List SkillRef :=
  ((index.get? (item.sourceKind ++ ":" ++ item.sourceId)).getD []).filterMap parseTarget

/-- The versions that pin a version. -/
def Library.parentsOf (lib : Library) (child : SkillRef) : List SkillRef :=
  (lib.iterLoaded.filter fun row => row.2.version.uses.contains child).map Prod.fst

/-- The lifecycles that a revocation leaves as they are. -/
def Lifecycle.revoked : Lifecycle → Bool
  | .quarantined => true
  | .deprecated => true
  | .needsRecert => true
  | _ => false

/-- `_mark_needs_recert` -/
def Library.markNeedsRecert (lib : Library) (ref : SkillRef) : Option Library :=
  match lib.getStatus ref with
  | .error _ => none
  | .ok status =>
    if status.lifecycle.revoked then none
    else (lib.writeStatus ref (status.moved .needsRecert) none).toOption

/-- Where a drain stands: the writes that it has left, and the versions that it has marked. -/
structure Drain where
  lib : Library
  remaining : ℕ
  touched : List SkillRef := []

def Drain.mark (d : Drain) (ref : SkillRef) : Drain :=
  match d.lib.markNeedsRecert ref with
  | none => d
  | some lib => { lib, remaining := d.remaining - 1, touched := d.touched ++ [ref] }

/-- The parents of a target, as long as writes remain. -/
def markParents : List SkillRef → Drain → Drain
  | [], d => d
  | parent :: parents, d =>
    if d.remaining = 0 then d else markParents parents (d.mark parent)

/-- The targets of an item with their parents, and whether the item is left over. -/
def drainTargets (parentsOf : SkillRef → List SkillRef) : List SkillRef → Drain → Drain × Bool
  | [], d => (d, false)
  | target :: targets, d =>
    if d.remaining = 0 then (d, true)
    else drainTargets parentsOf targets (markParents (parentsOf target) (d.mark target))

/-- The items, and those that are left over. -/
def drainItems (index : LineageIndex) (parentsOf : SkillRef → List SkillRef) :
    List Revoke → Drain → Drain × List Revoke
  | [], d => (d, [])
  | item :: items, d =>
    if d.remaining = 0 then
      let (d, leftover) := drainItems index parentsOf items d
      (d, item :: leftover)
    else
      let (d, unfinished) := drainTargets parentsOf (lookup index item) d
      let (d, leftover) := drainItems index parentsOf items d
      (d, if unfinished then item :: leftover else leftover)

/-- `item.get("reason") or "requeued"` -/
def Revoke.requeued (item : Revoke) : Revoke :=
  { item with reason := if item.reason = "" then "requeued" else item.reason }

/-- Takes at most `maxWrites` items off the queue, and enqueues again what is left over; also the
versions that it has marked. -/
def drainRevokes (maxWrites : ℕ) (lib : Library) : Library × List SkillRef :=
  let (d, leftover) := drainItems lib.index lib.parentsOf (lib.queue.take maxWrites)
    { lib := { lib with queue := lib.queue.drop maxWrites }, remaining := maxWrites }
  ({ d.lib with queue := d.lib.queue ++ leftover.map Revoke.requeued }, d.touched)

/-! The bounded active set of each task class: the ranking, its cut at the cap, and the refresh of
the active bits. -/

/-- One ranked candidate. -/
structure PortfolioRankItem where
  ref : SkillRef
  score : Option ℚ
  predictiveTrust : ℚ
  lastUsedAt : Option Int
  applications : ℕ

/-- A missing estimate counts as minus infinity. -/
def compareScore : Option ℚ → Option ℚ → Ordering
  | none, none => .eq
  | none, some _ => .lt
  | some _, none => .gt
  | some a, some b => compare a b

/-- The most recently used first, the never used last. -/
def compareRecency : Option Int → Option Int → Ordering
  | none, none => .eq
  | none, some _ => .gt
  | some _, none => .lt
  | some a, some b => compare b a

/-- `_sort_key` -/
def PortfolioRankItem.compareKey (a b : PortfolioRankItem) : Ordering :=
  (compareScore b.score a.score).then <|
  (compare b.predictiveTrust a.predictiveTrust).then <|
  (compareRecency a.lastUsedAt b.lastUsedAt).then <|
  (compare b.applications a.applications).then <|
  (compare a.ref.skillId b.ref.skillId).then (compare a.ref.version b.ref.version)

def rankItem (ref : SkillRef) (stats : SkillStats) : PortfolioRankItem where
  ref := ref
  score := stats.contribution.estimate
  predictiveTrust := stats.predictiveTrust.score
  lastUsedAt := stats.predictiveTrust.lastUsedAt
  applications := stats.contribution.applications

def rankSkills (candidates : List (SkillRef × SkillStats)) : List PortfolioRankItem :=
  (candidates.map fun c => rankItem c.1 c.2).insertionSort fun a b => a.compareKey b ≠ .gt

def selectActive (ranked : List PortfolioRankItem) (cap : ℕ) : List SkillRef :=
  (ranked.take cap).map PortfolioRankItem.ref

/-- A row of a class with the statistics that the refresh ranks it by. -/
structure PoolRow where
  ref : SkillRef
  entry : Entry
  stats : SkillStats

def PoolRow.eligible (row : PoolRow) : Bool := liveMixEligible row.entry.version row.stats

/-- The approved rows of a class, with their contribution refreshed where there is evidence. -/
def approvedRows (evidence : Option Evidence) (rows : List (SkillRef × Entry)) : List PoolRow :=
  (rows.filter fun row => row.2.loaded.lifecycle = .approved).map fun row =>
    { ref := row.1, entry := row.2
      stats := match evidence with
        | none => row.2.loadedStats
        | some evidence => { row.2.loadedStats with contribution := contributionOf evidence row.1 } }

/-- The ranking pool: with evidence, the rows that have an estimate, unless there are none. -/
def rankedPool (withEvidence : Bool) (approved : List PoolRow) : List PoolRow :=
  let estimated := if withEvidence then
    approved.filter fun row => row.stats.contribution.estimate.isSome && row.eligible else []
  if estimated = [] then approved.filter PoolRow.eligible else estimated

/-- The write of the refreshed statistics. -/
def writeRefreshed (approved : List PoolRow) (lib : Library) : Library :=
  approved.foldl (fun lib row =>
    if row.stats = row.entry.loadedStats then lib else lib.putStats row.ref row.stats) lib

/-- The statistics that a row is judged by behind the refresh. -/
def currentStats (approved : List PoolRow) (row : SkillRef × Entry) : SkillStats :=
  ((approved.find? fun r => r.ref = row.1).map PoolRow.stats).getD row.2.loadedStats

/-- The status behind the cut: an approved version is active when it is eligible and in the top. -/
def wantedStatus (topIds : List SkillRef) (ref : SkillRef) (entry : Entry) (stats : SkillStats) :
    SkillStatus :=
  if h : entry.loaded.lifecycle = .approved then
    { entry.loaded with
      active := liveMixEligible entry.version stats && topIds.contains ref
      activeRetrievable := fun _ => by rw [h]; rfl }
  else assignActiveOnApproval entry.loaded entry.version stats

/-- `_apply_active_bits`: only a change is written. -/
def applyActiveBits (topIds : List SkillRef) (approved : List PoolRow)
    (rows : List (SkillRef × Entry)) (lib : Library) : Except LibraryError Library :=
  sweep (fun ref entry =>
    let wanted := wantedStatus topIds ref entry (currentStats approved (ref, entry))
    if wanted.active = entry.loaded.active then none else some (wanted, none)) rows lib

/-- The refresh of one task class. -/
def refreshClass (config : AutonomyConfig) (evidence : Option Evidence)
    (rows : List (SkillRef × Entry)) (lib : Library) : Except LibraryError Library :=
  let approved := approvedRows evidence rows
  let pool := rankedPool evidence.isSome approved
  let topIds := selectActive (rankSkills (pool.map fun row => (row.ref, row.stats)))
    config.activeCapPerTaskClass
  applyActiveBits topIds approved rows (writeRefreshed approved lib)

/-- The task classes in the order in which the library shows them. -/
def taskClasses (rows : List (SkillRef × Entry)) : List String :=
  rows.foldl (fun classes row =>
    if classes.contains row.2.version.taskClass then classes
    else classes ++ [row.2.version.taskClass]) []

def recomputeActiveSet (config : AutonomyConfig) (evidence : Option Evidence) (lib : Library) :
    Except LibraryError Library :=
  (taskClasses lib.iterLoaded).foldlM (fun acc taskClass =>
    refreshClass config evidence
      (lib.iterLoaded.filter fun row => row.2.version.taskClass = taskClass) acc) lib

/-! Sequences of operations on one library. -/

/-- What the planes of the service do with the library. -/
inductive LibraryOp
  | writeCandidate (ref : SkillRef) (version : SkillVersion)
  | promoteToApproved (checks : Checks) (ref : SkillRef)
  | quarantineChildBlocksParents (child : SkillRef)
  | quarantineOnFailures (ref : SkillRef) (consecutiveFailures : ℕ)
  | recertifyFieldFailures (streaks : SkillRef → ℕ)
  | maybeBenchOnContribution (evidence : Evidence) (ref : SkillRef)
  | restoreBenched (now : Int) (ref : SkillRef)
  | maybeAdvanceShadowToCandidate (evidence : Evidence) (applicable : Bool) (ref : SkillRef)
  | enterShadow (ref : SkillRef)
  | recertifyStale (toolUpgraded : Option String)
  | drainRevokes (maxWrites : ℕ)
  | recomputeActiveSet (evidence : Option Evidence)

def LibraryOp.apply (config : AutonomyConfig) (op : LibraryOp) (lib : Library) :
    Except LibraryError Library :=
  match op with
  | .writeCandidate ref version => lib.writeCandidate ref version
  | .promoteToApproved checks ref => Skill.promoteToApproved checks ref lib
  | .quarantineChildBlocksParents child => Skill.quarantineChildBlocksParents child lib
  | .quarantineOnFailures ref failures => Skill.quarantineOnFailures config ref failures lib
  | .recertifyFieldFailures streaks => Skill.recertifyFieldFailures config streaks lib
  | .maybeBenchOnContribution evidence ref => Skill.maybeBenchOnContribution config evidence ref lib
  | .restoreBenched now ref => Skill.restoreBenched now ref lib
  | .maybeAdvanceShadowToCandidate evidence applicable ref =>
    Skill.maybeAdvanceShadowToCandidate config evidence applicable ref lib
  | .enterShadow ref => Skill.enterShadow ref lib
  | .recertifyStale toolUpgraded => Skill.recertifyStale toolUpgraded lib
  | .drainRevokes maxWrites => .ok (Skill.drainRevokes maxWrites lib).1
  | .recomputeActiveSet evidence => Skill.recomputeActiveSet config evidence lib

/-- An operation that raises leaves the library. -/
def system (config : AutonomyConfig) : Transition.System Library LibraryOp where
  step lib op := some ((op.apply config lib).toOption.getD lib)

end Recertia.Skill
