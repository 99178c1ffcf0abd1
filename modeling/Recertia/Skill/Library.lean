import Mathlib.Data.List.Sort
import Mathlib.Data.Rat.Defs
import Recertia.Lib.Table

/-! The skill library: immutable versions, their statuses and statistics, and beside them the lineage
index and the queue of revocations. -/
namespace Recertia.Skill

inductive Lifecycle
  | draft | candidate | shadow | approved | benched | needsRecert | deprecated | quarantined
  deriving DecidableEq, Repr

/-- `RETRIEVABLE_LIFECYCLES` -/
def Lifecycle.retrievable : Lifecycle → Bool
  | .approved => true
  | .shadow => true
  | _ => false

theorem retrievable_of_inactive (lifecycle : Lifecycle) (h : false = true) :
    lifecycle.retrievable = true := by cases h

theorem approved_retrievable (active : Bool) (_ : active = true) :
    Lifecycle.approved.retrievable = true := rfl

/-- One version of a skill; it is also the path of its files. -/
structure SkillRef where
  skillId : String
  version : ℕ
  deriving DecidableEq, Repr

inductive Curation
  | humanAuthored | minedFromHumanArtifact | minedFromPaper | selfDistilled
  deriving DecidableEq, Repr

structure Provenance where
  curation : Curation := .selfDistilled
  sourceCaseIds : List String := []
  sourceRunIds : List String := []
  sourceSessionIds : List String := []
  sourceContributorIds : List String := []
  deriving DecidableEq, Repr

/-- `version.json`, but for the content that only its checks read. -/
structure SkillVersion where
  taskClass : String
  uses : List SkillRef := []
  provenance : Provenance := {}
  usesUnique : uses.Nodup

inductive RecertStatus
  | fresh | stale | failed | never
  deriving DecidableEq, Repr

structure Certification where
  modelValidatedOn : Option String := none
  toolFingerprint : List (String × String) := []
  goldenSetRef : Option String := none
  lastRecertifiedAt : Option Int := none
  recertStatus : RecertStatus := .never
  deriving DecidableEq, Repr

structure Retirement where
  benchedAt : Option Int := none
  reason : Option String := none
  /-- the bound that the text of the evidence gives -/
  evidence : Option ℚ := none
  restoredAt : Option Int := none
  deriving DecidableEq, Repr

/-- `status.json`: only an approved or a shadow version is active. -/
structure SkillStatus where
  lifecycle : Lifecycle := .draft
  active : Bool := false
  certification : Certification := {}
  retirement : Retirement := {}
  activeRetrievable : active = true → lifecycle.retrievable = true := by decide

/-- A copy in another lifecycle, out of the active set. -/
def SkillStatus.moved (status : SkillStatus) (lifecycle : Lifecycle) : SkillStatus :=
  { status with lifecycle, active := false, activeRetrievable := fun h => Bool.noConfusion h }

structure PredictiveTrust where
  applications : ℕ := 0
  successes : ℕ := 0
  lastUsedAt : Option Int := none
  deriving DecidableEq

def PredictiveTrust.score (trust : PredictiveTrust) : ℚ :=
  (trust.successes + 1) / (trust.applications + 2)

structure Contribution where
  applications : ℕ := 0
  successes : ℕ := 0
  suppressedApplications : ℕ := 0
  suppressedSuccesses : ℕ := 0
  intervalLow : Option ℚ := none
  intervalHigh : Option ℚ := none
  lastEvaluatedAt : Option Int := none
  deriving DecidableEq

/-- Nothing without both randomized arms. The quotients are exact, where the source rounds them to
floats. -/
def Contribution.estimate (c : Contribution) : Option ℚ :=
  if c.applications = 0 ∨ c.suppressedApplications = 0 then none
  else some (c.successes / c.applications - c.suppressedSuccesses / c.suppressedApplications)

structure SkillStats where
  predictiveTrust : PredictiveTrust := {}
  contribution : Contribution := {}
  deriving DecidableEq

/-- The files of a version; the status and the statistics can be missing. -/
structure Entry where
  version : SkillVersion
  status : Option SkillStatus := none
  stats : Option SkillStats := none

/-- A missing status reads as a draft. -/
def Entry.loaded (entry : Entry) : SkillStatus := entry.status.getD {}

def Entry.loadedStats (entry : Entry) : SkillStats := entry.stats.getD {}

/-- An item of `revoke.jsonl`. -/
structure Revoke where
  sourceKind : String
  sourceId : String
  reason : String
  deriving DecidableEq, Repr

/-- `source → [skill_id@version, …]` -/
abbrev LineageIndex := Table String (List String)

structure Library where
  entries : Table SkillRef Entry
  index : LineageIndex
  queue : List Revoke

inductive LibraryError
  | notFound
  /-- an overwrite of a version -/
  | immutability
  | approvedLifecycle
  | lifecycleConflict
  | refused (message : String)
  deriving DecidableEq, Repr

def SkillRef.target (ref : SkillRef) : String := ref.skillId ++ "@" ++ toString ref.version

/-- The sorted order of the directories. -/
def SkillRef.before (a b : SkillRef) : Prop :=
  a.skillId < b.skillId ∨
    (a.skillId = b.skillId ∧ "v" ++ toString a.version ≤ "v" ++ toString b.version)

instance (a b : SkillRef) : Decidable (a.before b) := inferInstanceAs (Decidable (_ ∨ _))

/-- Every version with its files, in the order of the directories. -/
def Library.iterLoaded (lib : Library) : List (SkillRef × Entry) :=
  lib.entries.rows.insertionSort fun a b => a.1.before b.1

def Library.get? (lib : Library) (ref : SkillRef) : Option Entry := lib.entries.get? ref

def Library.getStatus (lib : Library) (ref : SkillRef) : Except LibraryError SkillStatus :=
  match (lib.get? ref).bind Entry.status with
  | none => .error .notFound
  | some status => .ok status

/-- Authoring keys and the version's own identity. -/
def sourceKeys (ref : SkillRef) (version : SkillVersion) : List String :=
  version.provenance.sourceCaseIds.map ("case:" ++ ·) ++
  version.provenance.sourceRunIds.map ("run:" ++ ·) ++
  version.provenance.sourceSessionIds.map ("session:" ++ ·) ++
  version.provenance.sourceContributorIds.map ("contributor:" ++ ·) ++
  ["skill:" ++ ref.target]

/-- `LineageIndex.record` -/
def record (index : LineageIndex) (ref : SkillRef) (version : SkillVersion) : LineageIndex :=
  (sourceKeys ref version).foldl (fun index key =>
    index.upsert key [ref.target] fun bucket =>
      if bucket.contains ref.target then bucket else bucket ++ [ref.target]) index

/-- What a transition into `quarantined` enqueues: the version and its authoring sources. -/
def revokesOf (ref : SkillRef) (version : SkillVersion) : List Revoke :=
  let sources (kind : String) (ids : List String) : List Revoke :=
    ids.map fun id => ⟨kind, id, "quarantine_version"⟩
  ⟨"skill", ref.target, "quarantine_version"⟩ ::
    (sources "run" version.provenance.sourceRunIds ++
    sources "case" version.provenance.sourceCaseIds ++
    sources "session" version.provenance.sourceSessionIds ++
    sources "contributor" version.provenance.sourceContributorIds)

/-- `_write_status_unchecked` -/
def Library.putStatus (lib : Library) (ref : SkillRef) (status : SkillStatus) : Library :=
  { lib with entries := lib.entries.update (fun r _ => r = ref) fun entry =>
      { entry with status := some status } }

def Library.putStats (lib : Library) (ref : SkillRef) (stats : SkillStats) : Library :=
  { lib with entries := lib.entries.update (fun r _ => r = ref) fun entry =>
      { entry with stats := some stats } }

/-- Transitions into `approved` are refused; with `expected` the stored lifecycle has to match. -/
def Library.writeStatus (lib : Library) (ref : SkillRef) (status : SkillStatus)
    (expected : Option Lifecycle) : Except LibraryError Library :=
  match lib.get? ref with
  | none => .error .notFound
  | some entry =>
    let existing := entry.status.map SkillStatus.lifecycle
    if expected.isSome ∧ existing ≠ expected then .error .lifecycleConflict
    else if status.lifecycle = .approved ∧ existing ≠ some .approved then
      .error .approvedLifecycle
    else
      let lib := lib.putStatus ref status
      let revokes := if status.lifecycle = .quarantined ∧ existing ≠ some .quarantined then
        revokesOf ref entry.version else []
      .ok { lib with queue := lib.queue ++ revokes }

/-- A version is written once, and recorded in the index. -/
def Library.writeVersion (lib : Library) (ref : SkillRef) (version : SkillVersion) :
    Except LibraryError Library :=
  match lib.entries.insert ref { version } with
  | none => .error .immutability
  | some entries => .ok { lib with entries, index := record lib.index ref version }

/-- `_PROTECTED_FROM_CANDIDATE_DEMOTE` -/
def Lifecycle.protectedFromDemote : Lifecycle → Bool
  | .draft => false
  | .candidate => false
  | _ => true

def Library.writeCandidate (lib : Library) (ref : SkillRef) (version : SkillVersion) :
    Except LibraryError Library := do
  let lib ← match lib.get? ref with
    | none => lib.writeVersion ref version
    | some _ => pure lib
  let existing := (lib.get? ref).bind Entry.status
  if existing.any fun status => status.lifecycle.protectedFromDemote then
    throw .approvedLifecycle
  let lib ← lib.writeStatus ref { lifecycle := .candidate } none
  return lib.putStats ref {}

end Recertia.Skill
