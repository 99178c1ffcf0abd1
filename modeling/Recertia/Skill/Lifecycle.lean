import Recertia.Skill.Library

/-! The operations that move a version between lifecycles: quarantine, benching and its restore,
shadow runs, recertification sweeps and the promotion gate. -/
namespace Recertia.Skill

structure AutonomyConfig where
  shadowMinSuccesses : ℕ := 5
  shadowMinApplications : ℕ := 8
  shadowMinLift : ℚ := 5 / 100
  quarantineConsecutiveFailures : ℕ := 2
  evidenceFloor : ℕ := 30
  retirementThreshold : ℚ := 5 / 100
  activeCapPerTaskClass : ℕ := 50
  curationPriorSelfDistilled : ℚ := 85 / 100

structure BinomialSample where
  successes : ℕ := 0
  trials : ℕ := 0
  deriving DecidableEq, Repr

/-- What an operation reads of the eval store and the clock; `interval` is
`newcombe_wilson_difference`. -/
structure Evidence where
  samples : SkillRef → BinomialSample × BinomialSample
  interval : BinomialSample → BinomialSample → Option (ℚ × ℚ)
  now : Int

def estimateContribution (evidence : Evidence) (shadow suppression : BinomialSample) :
    Contribution :=
  if shadow.trials = 0 ∨ suppression.trials = 0 then
    { applications := shadow.trials, successes := shadow.successes
      lastEvaluatedAt := some evidence.now }
  else
    let interval := evidence.interval shadow suppression
    { applications := shadow.trials, successes := shadow.successes
      suppressedApplications := suppression.trials, suppressedSuccesses := suppression.successes
      intervalLow := interval.map Prod.fst, intervalHigh := interval.map Prod.snd
      lastEvaluatedAt := some evidence.now }

def contributionOf (evidence : Evidence) (ref : SkillRef) : Contribution :=
  estimateContribution evidence (evidence.samples ref).1 (evidence.samples ref).2

inductive RetirementAction
  | belowFloor | noEstimate | noInterval | keep | retire
  deriving DecidableEq, Repr

/-- Retires past the evidence floor when the whole interval lies below `-tau`. -/
def retirementDecision (applications : ℕ) (estimate intervalHigh : Option ℚ)
    (evidenceFloor : ℕ) (tau : ℚ) : RetirementAction :=
  if applications < evidenceFloor then .belowFloor
  else match estimate, intervalHigh with
    | none, _ => .noEstimate
    | some _, none => .noInterval
    | some _, some high => if high ≥ -tau then .keep else .retire

/-- A pass over the rows that it has loaded; each status is written against the lifecycle that it
names, if any. -/
def sweep (change : SkillRef → Entry → Option (SkillStatus × Option Lifecycle))
    (rows : List (SkillRef × Entry)) (lib : Library) : Except LibraryError Library :=
  rows.foldlM (fun lib row =>
    match change row.1 row.2 with
    | none => .ok lib
    | some (status, expected) => lib.writeStatus row.1 status expected) lib

/-- Quarantines the child and marks the versions that pin it. -/
def quarantineChildBlocksParents (child : SkillRef) (lib : Library) :
    Except LibraryError Library := do
  let status ← lib.getStatus child
  let lib ← lib.writeStatus child (status.moved .quarantined) none
  sweep (fun _ entry =>
    if entry.version.uses.contains child then some (entry.loaded.moved .needsRecert, none)
    else none) lib.iterLoaded lib

/-- `_mark_parents_needs_recert` -/
def markParentsNeedsRecert (child : SkillRef) (lib : Library) : Except LibraryError Library :=
  sweep (fun _ entry =>
    let status := entry.loaded
    if entry.version.uses.contains child ∧
        (status.lifecycle = .approved ∨ status.lifecycle = .shadow) then
      some (status.moved .needsRecert, some status.lifecycle)
    else none) lib.iterLoaded lib

def quarantineOnFailures (config : AutonomyConfig) (ref : SkillRef) (consecutiveFailures : ℕ)
    (lib : Library) : Except LibraryError Library := do
  let status ← lib.getStatus ref
  if consecutiveFailures < config.quarantineConsecutiveFailures then return lib
  lib.writeStatus ref (status.moved .quarantined) (some status.lifecycle)

/-- Quarantines what has failed in the field, among the versions that are still in use. -/
def recertifyFieldFailures (config : AutonomyConfig) (streaks : SkillRef → ℕ) (lib : Library) :
    Except LibraryError Library :=
  sweep (fun ref entry =>
    let status := entry.loaded
    if (status.lifecycle = .approved ∨ status.lifecycle = .shadow ∨
        status.lifecycle = .needsRecert) ∧
        config.quarantineConsecutiveFailures ≤ streaks ref then
      some (status.moved .quarantined, some status.lifecycle)
    else none) lib.iterLoaded lib

/-- Benches when the contribution is confidently negative past the evidence floor. -/
def maybeBenchOnContribution (config : AutonomyConfig) (evidence : Evidence) (ref : SkillRef)
    (lib : Library) : Except LibraryError Library := do
  let status ← lib.getStatus ref
  let contribution := contributionOf evidence ref
  match retirementDecision (evidence.samples ref).1.trials contribution.estimate
      contribution.intervalHigh config.evidenceFloor config.retirementThreshold with
  | .belowFloor => throw (.refused "below evidence floor")
  | .retire =>
    let benched := { status.moved .benched with
      retirement := { benchedAt := some evidence.now, reason := some "negative_contribution"
                      evidence := contribution.intervalHigh } }
    let stats := (lib.get? ref).elim {} Entry.loadedStats
    let lib ← lib.writeStatus ref benched (some status.lifecycle)
    markParentsNeedsRecert ref (lib.putStats ref { stats with contribution })
  | _ => throw (.refused "contribution not confidently negative")

/-- The explicit restore of a benched version. -/
def restoreBenched (now : Int) (ref : SkillRef) (lib : Library) :
    Except LibraryError Library := do
  let status ← lib.getStatus ref
  if status.lifecycle ≠ .benched then throw (.refused "only benched skills can be restored")
  lib.writeStatus ref
    { status.moved .candidate with
      retirement := { status.retirement with restoredAt := some now } } (some .benched)

/-- `applicable` is the answer of the applicability gate. -/
def maybeAdvanceShadowToCandidate (config : AutonomyConfig) (evidence : Evidence)
    (applicable : Bool) (ref : SkillRef) (lib : Library) : Except LibraryError Library := do
  let status ← lib.getStatus ref
  if status.lifecycle ≠ .shadow then throw (.refused "not shadow")
  let entry ← (lib.get? ref).elim (.error .notFound) .ok
  let shadow := (evidence.samples ref).1
  let contribution := contributionOf evidence ref
  let requiredLift :=
    if entry.version.provenance.curation = .selfDistilled then
      config.shadowMinLift / config.curationPriorSelfDistilled
    else config.shadowMinLift
  if contribution.estimate.all fun lift => lift < config.shadowMinLift then
    throw (.refused "refusing auto-promote")
  if shadow.trials < config.shadowMinApplications then
    throw (.refused "insufficient shadow applications")
  if shadow.successes < config.shadowMinSuccesses then
    throw (.refused "insufficient shadow successes")
  if contribution.estimate.all fun lift => lift < requiredLift then
    throw (.refused "self_distilled bar not met")
  if !applicable then throw (.refused "applicability gate refused")
  let lib ← lib.writeStatus ref (status.moved .candidate) (some status.lifecycle)
  return lib.putStats ref { entry.loadedStats with contribution }

def enterShadow (ref : SkillRef) (lib : Library) : Except LibraryError Library := do
  let status ← lib.getStatus ref
  if ¬ (status.lifecycle = .candidate ∨ status.lifecycle = .approved ∨
      status.lifecycle = .benched ∨ status.lifecycle = .shadow ∨ status.lifecycle = .draft) then
    throw (.refused "enter_shadow refused")
  lib.writeStatus ref (status.moved .shadow) (some status.lifecycle)

/-- `tool_upgraded or recert_status == "stale"`; an empty name upgrades nothing. -/
def isStale (toolUpgraded : Option String) (status : SkillStatus) : Bool :=
  toolUpgraded.any (· ≠ "") || status.certification.recertStatus = .stale

def recertifyStale (toolUpgraded : Option String) (lib : Library) :
    Except LibraryError Library :=
  sweep (fun _ entry =>
    if isStale toolUpgraded entry.loaded then some (entry.loaded.moved .needsRecert, none)
    else none) lib.iterLoaded lib

/-- Whether an approved version may compete for an active slot. -/
def liveMixEligible (version : SkillVersion) (stats : SkillStats) : Bool :=
  version.provenance.curation ≠ .selfDistilled || stats.contribution.estimate.any (0 ≤ ·)

def assignActiveOnApproval (status : SkillStatus) (version : SkillVersion) (stats : SkillStats) :
    SkillStatus :=
  if h : status.lifecycle = .approved then
    { status with active := liveMixEligible version stats
                  activeRetrievable := fun _ => by rw [h]; rfl }
  else status.moved status.lifecycle

/-- The answers of the checks that a promotion makes: the operator's audit sink, the two lints, the
applicability gate and the golden gate. -/
structure Checks where
  audit : Bool
  lintCandidate : SkillVersion → SkillStats → List String
  lintApproved : SkillVersion → SkillStatus → SkillStats → List String
  applicable : Bool
  goldenPassed : Bool
  certification : Certification

/-- A quarantine or a benching that lands during the golden gate aborts the promotion. -/
def Lifecycle.abortsPromotion : Lifecycle → Bool
  | .quarantined => true
  | .benched => true
  | .needsRecert => true
  | _ => false

/-- `promote_to_approved`; its writer takes approved statuses only. -/
def promoteToApproved (checks : Checks) (ref : SkillRef) (lib : Library) :
    Except LibraryError Library := do
  if !checks.audit then throw (.refused "operator audit store unavailable")
  let entry ← (lib.get? ref).elim (.error .notFound) .ok
  let status ← lib.getStatus ref
  let stats := entry.loadedStats
  if checks.lintCandidate entry.version stats ≠ [] then
    throw (.refused "skill not eligible for approval")
  if !checks.applicable then throw (.refused "applicability gate refused")
  if !checks.goldenPassed then throw (.refused "golden gate failed")
  let approved := assignActiveOnApproval
    { lifecycle := .approved, certification := checks.certification } entry.version stats
  if checks.lintApproved entry.version approved stats ≠ [] then
    throw (.refused "approved profile violations")
  if status.lifecycle.abortsPromotion then throw (.refused "promotion aborted")
  return lib.putStatus ref approved

end Recertia.Skill
