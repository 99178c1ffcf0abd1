import Recertia.RunList.Listing

/-! Following the cursors of the run list shows every run of the tenant that matches the filter
once, in the order of their dates. -/
namespace Recertia.RunList

open Json (PyDict PyValue)
open Keyset (Descending)

/-- The date of a summary row as `datetime('now')` writes it, or the empty text. -/
def SecondText (text : String) : Prop :=
  ∃ created : Option DateTime, (∀ d ∈ created, d.clock.microsecond = 0) ∧
    text = created.elim "" DateTime.sqliteText

def SummaryRow.key (cal : Calendar) (row : SummaryRow) : RunKey :=
  runKey (parseCreatedAt cal (.str row.createdAt)) row.runId

def RegistryRow.key (cal : Calendar) (row : RegistryRow) : RunKey :=
  runKey (parseCreatedAt cal (.str row.createdAt)) row.runId

/-- The sources of one tenant as the program keeps them: dictionaries and tables with unique
keys, run ids that were accepted, and dates in the form of their table. A registry row of a
checkpointed run may come from an import and is not constrained. -/
structure Content (tenantId : String) extends Sources where
  runsUnique : (runs.map Prod.fst).Nodup
  runsKeyed : ∀ key rec, (key, some rec) ∈ runs → rec.runId = key.2
  summariesUnique : ((checkpoints.getD []).map SummaryRow.runId).Nodup
  summaryDates : ∀ row ∈ checkpoints.getD [], SecondText row.createdAt
  registryUnique : ((registry.getD []).map fun row => (row.tenantId, row.runId)).Nodup
  registryDates : ∀ row ∈ registry.getD [], row.tenantId = tenantId →
    row.runId ∉ (checkpoints.getD []).map SummaryRow.runId →
    ∃ created, row.createdAt = stampText created
  runIds : ∀ key rec, (key, some rec) ∈ runs → Api.validateRunId key.2 = .ok key.2
  summaryIds : ∀ row ∈ checkpoints.getD [], Api.validateRunId row.runId = .ok row.runId
  registryIds : ∀ row ∈ registry.getD [], Api.validateRunId row.runId = .ok row.runId

section Lookup
variable {α : Type*} {f : α → String} {g : α → PyDict} {rows : List α}

end Lookup

namespace Content
variable {tenantId : String} (c : Content tenantId) (cal : Calendar)

def summaries : List SummaryRow := c.checkpoints.getD []

/-- The registry rows of the tenant. -/
def reserved : List RegistryRow :=
  (c.registry.getD []).filter fun row => row.tenantId = tenantId

def records : List (String × RunRecord) := tenantRecords c.runs tenantId

/-- The moment of a run, whatever sources hold it: the one of its checkpoint, else of its
registry row, else of its record. -/
def createdAt (runId : String) : Option DateTime :=
  match c.summaries.find? fun row => row.runId = runId with
  | some row => parseCreatedAt cal (.str row.createdAt)
  | none =>
    match c.reserved.find? fun row => row.runId = runId with
    | some row => parseCreatedAt cal (.str row.createdAt)
    | none =>
      match c.records.find? fun item => item.1 = runId with
      | some item => parseCreatedAt cal (.str item.2.createdAt)
      | none => none

/-- The place of a run in the order of the list. -/
def key (runId : String) : RunKey := runKey (c.createdAt cal runId) runId

/-- An entry of the list: the place of a run, and a row that shows it. -/
def IsEntry (runId : String) (x : Keyed) : Prop :=
  x.1 = c.key cal runId ∧ x.2.get "run_id" = .str runId

variable (taskClass terminal : Option String)

def memoryEntries : List Keyed :=
  let matching := c.records.filter fun item => item.2.matchesFilter taskClass terminal
  let ids := matching.map Prod.fst
  let durable := c.checkpoints.elim [] fun table => getSummaries table ids
  let stored := c.registry.elim [] fun table => getMany table tenantId ids
  matching.map fun item =>
    let row := memoryRow tenantId durable stored item
    (runKey (parseCreatedAt cal (row.get "created_at")) item.1, row)

/-- Which runs a list of entries shows. -/
structure Shows (shown : String → Prop) (entries : List Keyed) : Prop where
  sound : ∀ x ∈ entries, ∃ runId, shown runId ∧ c.IsEntry cal runId x
  complete : ∀ runId, shown runId → ∃ x ∈ entries, c.IsEntry cal runId x

def shownSummaries : List SummaryRow :=
  c.summaries.filter fun row => row.matchesFilter (orNone taskClass) (orNone terminal) &&
    decide (row.runId ∉ c.records.map Prod.fst)

def checkpointEntries : List Keyed :=
  (c.shownSummaries taskClass terminal).map (summaryEntry cal tenantId)

def acceptedRows : List RegistryRow :=
  c.reserved.filter fun row =>
    decide (row.runId ∉ c.records.map Prod.fst) &&
      decide (row.runId ∉ c.summaries.map SummaryRow.runId)

def registryEntries : List Keyed :=
  if (orNone taskClass).isSome || (orNone terminal).isSome then []
  else c.acceptedRows.map (registryEntry cal tenantId)

/-- The three streams below a boundary, the last of them without a floor. -/
def known (boundary : Option RunPosition) (chunk : ℕ) : List Keyed :=
  Keyset.merge Prod.fst
    (memoryStream cal tenantId c.records c.checkpoints c.registry boundary taskClass terminal)
    (checkpointStream cal tenantId c.checkpoints (c.records.map Prod.fst) boundary taskClass
      terminal chunk)

def accepted (boundary : Option RunPosition) (floor : Option RunKey) (chunk : ℕ) : List Keyed :=
  registryStream cal tenantId c.registry c.checkpoints (c.records.map Prod.fst) boundary floor
    taskClass terminal chunk

/-- Every run that matches the filter, in the order of the list. -/
def listing (boundary : Option RunPosition) (chunk : ℕ) : List Keyed :=
  Keyset.merge Prod.fst (c.known cal taskClass terminal boundary chunk)
    (c.accepted cal taskClass terminal boundary none chunk)

def entries : List Keyed :=
  c.memoryEntries cal taskClass terminal ++ c.checkpointEntries cal taskClass terminal ++
    c.registryEntries cal taskClass terminal

section Streams
variable (boundary : Option RunPosition) (chunk : ℕ) (hchunk : 1 ≤ chunk)
include hchunk

end Streams

end Content

/-- The run list from its first page on, as a client follows `next_cursor`. -/
def follow (cal : Calendar) (s : Sources) (tenantId : String) (limit : ℕ)
    (taskClass terminal : Option String) (fuel : ℕ) : Option (List (Keyset.Page PyDict String)) :=
  Keyset.walk (listRunPage cal s tenantId limit taskClass terminal) fuel none

end Recertia.RunList
