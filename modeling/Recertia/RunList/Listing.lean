import Recertia.Lib.Keyset
import Recertia.RunList.Cursor

/-! The order of the run list, and the tables that it is read from. -/
namespace Json

/-- `{**items, key: value}` -/
def PyDict.set (items : PyDict) (key : String) (value : PyValue) : PyDict :=
  match items with
  | [] => [(key, value)]
  | (k, v) :: rest => if k = key then (k, value) :: rest else (k, v) :: PyDict.set rest key value

def strOrNull (s : Option String) : PyValue := s.elim .null .str

def intOrNull (i : Option Int) : PyValue := i.elim .null .int

def floatOrNull (f : Option PyFloat) : PyValue := f.elim .null .float

end Json

namespace Recertia.RunList

open Json (PyDict PyValue PyFloat strOrNull intOrNull floatOrNull)

/-- `datetime.min`, which stands in for a missing date. -/
def noDate : DateTime := ⟨⟨1, 1, 1, 0, 0, 0, 0⟩, by decide⟩

/-- Total order key, to be sorted descending: a run without a date is below every dated one. -/
abbrev RunKey := Bool ×ₗ DateTime ×ₗ String

def runKey (created : Option DateTime) (runId : String) : RunKey :=
  toLex (created.isSome, toLex (created.getD noDate, runId))

/-- The value as a moment in UTC. A naive one is UTC; nothing comes of what is missing or cannot
be parsed. -/
def parseCreatedAt (cal : Calendar) (value : PyValue) : Option DateTime := do
  let text ← value.str?
  if text = "" then none
  let (parsed, offset) ← cal.fromisoformat text
  match offset with
  | none => some parsed
  | some offset => cal.astimezoneUtc parsed offset

/-- A row of `run_summaries`. -/
structure SummaryRow where
  runId : String
  taskClass : String
  terminal : Option String
  attemptNo : Option Int
  arm : Option String
  costUsd : Option PyFloat
  createdAt : String

/-- A row of `runs`. A summary that is not a JSON object counts as empty. -/
structure RegistryRow where
  tenantId : String
  runId : String
  status : String
  summary : PyDict
  createdAt : String
  updatedAt : String

/-- The fields of an in-memory run that the list shows. `createdAt` is its `isoformat()`. -/
structure RunRecord where
  runId : String
  tenantId : String
  taskClass : String
  terminal : Option String
  status : String
  attemptNo : Option Int
  createdAt : String
  costUsd : Option PyFloat
  arm : Option String

/-- `_summary_dict` -/
def summaryDict (row : SummaryRow) : PyDict :=
  let terminal := row.terminal.filter fun t => t ≠ ""
  [("run_id", .str row.runId),
   ("task_class", .str (if row.taskClass = "" then "repo-chore" else row.taskClass)),
   ("terminal", strOrNull terminal),
   ("status", .str (terminal.getD "running")),
   ("attempt_no", intOrNull row.attemptNo),
   ("created_at", .str row.createdAt),
   ("cost_usd", floatOrNull row.costUsd),
   ("arm", strOrNull row.arm)]

/-- `_listing_row` -/
def listingRow (row : RegistryRow) : PyDict :=
  (((row.summary.set "run_id" (.str row.runId)).set "status" (.str row.status)).set
    "created_at" (.str row.createdAt)).set "updated_at" (.str row.updatedAt)

/-- `_summary_from_record` -/
def summaryFromRecord (rec : RunRecord) : PyDict :=
  [("run_id", .str rec.runId),
   ("task_class", .str rec.taskClass),
   ("terminal", strOrNull rec.terminal),
   ("status", .str rec.status),
   ("attempt_no", intOrNull rec.attemptNo),
   ("created_at", .str rec.createdAt),
   ("cost_usd", floatOrNull rec.costUsd),
   ("arm", strOrNull rec.arm),
   ("tenant_id", .str rec.tenantId)]

/-- A position in a table: what is compared with `created_at`, and with `run_id`. -/
abbrev Bound := Option String × Option String

def SummaryRow.textKey (row : SummaryRow) : String ×ₗ String := toLex (row.createdAt, row.runId)

def RegistryRow.textKey (row : RegistryRow) : String ×ₗ String := toLex (row.createdAt, row.runId)

/-- The `WHERE` clause on the position: strictly below both values, or at most a date. -/
def SummaryRow.below (before : Bound) (row : SummaryRow) : Bool :=
  match before with
  | (some createdAt, some runId) => row.textKey < toLex (createdAt, runId)
  | (some createdAt, none) => row.createdAt ≤ createdAt
  | (none, _) => true

def SummaryRow.matchesFilter (taskClass terminal : Option String) (row : SummaryRow) : Bool :=
  taskClass.all (fun t => row.taskClass = t) && terminal.all fun t => row.terminal.getD "" = t

/-- A keyset page of `run_summaries`, newest first, at most `limit` rows. -/
def listSummariesPage (table : List SummaryRow) (limit : ℕ) (before : Bound)
    (taskClass terminal : Option String) : List SummaryRow :=
  if limit < 1 then []
  else Keyset.select SummaryRow.textKey
    (fun row => row.below before && row.matchesFilter taskClass terminal) limit table

/-- The rows of `runIds` that exist, by run id. -/
def getSummaries (table : List SummaryRow) (runIds : List String) : List (String × PyDict) :=
  (table.filter fun row => row.runId ∈ runIds).map fun row => (row.runId, summaryDict row)

def RegistryRow.below (before : Bound) (row : RegistryRow) : Bool :=
  match before with
  | (some createdAt, some runId) => row.textKey < toLex (createdAt, runId)
  | _ => true

def RegistryRow.above (after : Bound) (row : RegistryRow) : Bool :=
  match after with
  | (some createdAt, some runId) => toLex (createdAt, runId) < row.textKey
  | _ => true

/-- A keyset page of one tenant's rows, strictly between two positions. -/
def listPage (table : List RegistryRow) (tenantId : String) (limit : ℕ) (before after : Bound) :
    List RegistryRow :=
  Keyset.select RegistryRow.textKey
    (fun row => row.tenantId = tenantId && row.below before && row.above after) limit table

def getMany (table : List RegistryRow) (tenantId : String) (runIds : List String) :
    List (String × PyDict) :=
  (table.filter fun row => row.tenantId = tenantId && decide (row.runId ∈ runIds)).map fun row =>
    (row.runId, listingRow row)

/-- `found.get(run_id)` -/
def valueAt (found : List (String × PyDict)) (runId : String) : Option PyDict :=
  (found.find? fun item => item.1 = runId).map Prod.snd

/-! `list_run_page`: one page of the run list, merged from the in-memory runs, the checkpoint
summaries and the run registry. -/

/-- What the list reads: the run table of the process, and the two tables of the tenant's runs
root, where their files exist. -/
structure Sources where
  runs : List ((String × String) × Option RunRecord)
  checkpoints : Option (List SummaryRow)
  registry : Option (List RegistryRow)

abbrev Keyed := RunKey × PyDict

/-- `value or None` -/
def orNone (value : Option String) : Option String := value.filter fun v => v ≠ ""

def RunRecord.matchesFilter (taskClass terminal : Option String) (rec : RunRecord) : Bool :=
  (orNone taskClass).all (fun t => rec.taskClass = t) &&
    (orNone terminal).all fun t => rec.terminal.getD "" = t

def tenantRecord (tenantId : String) :
    (String × String) × Option RunRecord → Option (String × RunRecord)
  | ((tid, runId), some rec) =>
    if tid = tenantId ∧ rec.tenantId = tenantId then some (runId, rec) else none
  | (_, none) => none

def tenantRecords (runs : List ((String × String) × Option RunRecord)) (tenantId : String) :
    List (String × RunRecord) :=
  runs.filterMap (tenantRecord tenantId)

/-- Below the position that the page starts from, if there is one. -/
def belowBoundary (boundary : Option RunPosition) (key : RunKey) : Bool :=
  boundary.all fun b => key < runKey b.createdAt b.runId

/-- The row of an in-memory run, with the date of its stored row if it has one. -/
def memoryRow (tenantId : String) (durable reserved : List (String × PyDict))
    (item : String × RunRecord) : PyDict :=
  let row := (summaryFromRecord item.2).set "tenant_id" (.str tenantId)
  match (valueAt durable item.1).or (valueAt reserved item.1) with
  | some stored => row.set "created_at" (stored.get "created_at")
  | none => row

def memoryStream (cal : Calendar) (tenantId : String) (records : List (String × RunRecord))
    (store : Option (List SummaryRow)) (registry : Option (List RegistryRow))
    (boundary : Option RunPosition) (taskClass terminal : Option String) : List Keyed :=
  let matching := records.filter fun item => item.2.matchesFilter taskClass terminal
  let ids := matching.map Prod.fst
  let durable := store.elim [] fun table => getSummaries table ids
  let reserved := registry.elim [] fun table => getMany table tenantId ids
  let keyed := matching.map fun item =>
    let row := memoryRow tenantId durable reserved item
    (runKey (parseCreatedAt cal (row.get "created_at")) item.1, row)
  Keyset.order Prod.fst (keyed.filter fun item => belowBoundary boundary item.1)

/-- Where the scan of the summaries starts. Their dates are whole seconds, so a position with a
sub-second part is after every row of its own second. -/
def checkpointStart (boundary : Option RunPosition) : Bound :=
  match boundary with
  | none => (none, none)
  | some ⟨none, runId⟩ => (some "", some runId)
  | some ⟨some created, runId⟩ =>
    (some created.sqliteText, if created.clock.microsecond ≠ 0 then none else some runId)

def summaryEntry (cal : Calendar) (tenantId : String) (row : SummaryRow) : Keyed :=
  (runKey (parseCreatedAt cal ((summaryDict row).get "created_at")) row.runId,
    (summaryDict row).set "tenant_id" (.str tenantId))

def checkpointStream (cal : Calendar) (tenantId : String) (store : Option (List SummaryRow))
    (skip : List String) (boundary : Option RunPosition) (taskClass terminal : Option String)
    (chunk : ℕ) : List Keyed :=
  match store with
  | none => []
  | some table =>
    let page := fun before =>
      listSummariesPage table chunk before (orNone taskClass) (orNone terminal)
    let after := fun row : SummaryRow => (some row.createdAt, some row.runId)
    let rows := Keyset.scan page after chunk (table.length + 1) (checkpointStart boundary)
    (rows.filter fun row => row.runId ∉ skip).map (summaryEntry cal tenantId)

/-- An undated row has an empty date, the lowest text. -/
def stampText (created : Option DateTime) : String := created.elim "" DateTime.isoformat

/-- The date of a key, where it has one. -/
def keyDate (key : RunKey) : Option DateTime :=
  let (hasDate, rest) := ofLex key
  if hasDate then some (ofLex rest).1 else none

def keyId (key : RunKey) : String := (ofLex (ofLex key).2).2

def registryEntry (cal : Calendar) (tenantId : String) (row : RegistryRow) : Keyed :=
  (runKey (parseCreatedAt cal ((listingRow row).get "created_at")) row.runId,
    (listingRow row).set "tenant_id" (.str tenantId))

/-- The rows of runs that have no checkpoint yet, below the boundary and above the floor. -/
def registryStream (cal : Calendar) (tenantId : String) (registry : Option (List RegistryRow))
    (store : Option (List SummaryRow)) (skip : List String) (boundary : Option RunPosition)
    (floor : Option RunKey) (taskClass terminal : Option String) (chunk : ℕ) : List Keyed :=
  match registry with
  | none => []
  | some table =>
    if (orNone taskClass).isSome || (orNone terminal).isSome then []
    else
      let start : Bound := boundary.elim (none, none) fun b =>
        (some (stampText b.createdAt), some b.runId)
      let limit : Bound := floor.elim (none, none) fun key =>
        (some (stampText (keyDate key)), some (keyId key))
      let page := fun before => listPage table tenantId chunk before limit
      let after := fun row : RegistryRow => (some row.createdAt, some row.runId)
      let rows := Keyset.scan page after chunk (table.length + 1) start
      let checkpointed := store.elim [] fun summaries =>
        getSummaries summaries (rows.map RegistryRow.runId)
      (rows.filter fun row => row.runId ∉ skip && (valueAt checkpointed row.runId).isNone).map
        (registryEntry cal tenantId)

def encodeKey (key : RunKey) : String := encodeRunCursor ⟨keyDate key, keyId key⟩

def cursorBoundary (cal : Calendar) (cursor : Option String) :
    Except Refusal (Option RunPosition) :=
  match orNone cursor with
  | some cursor => (decodeRunCursor cal cursor).map some
  | none => .ok none

/-- The page of the rows that were taken, of which the one after its end only shows that there
are more. -/
def pageOf (limit : ℕ) (taken : List Keyed) : Keyset.Page PyDict String where
  items := (taken.take limit).map Prod.snd
  next := if limit < taken.length then taken[limit - 1]?.map fun item => encodeKey item.1 else none

/-- The page below the boundary. A registry-only run below the last candidate of the other
sources cannot be on it. -/
def pageBelow (cal : Calendar) (s : Sources) (tenantId : String) (limit : ℕ)
    (taskClass terminal : Option String) (boundary : Option RunPosition) :
    Keyset.Page PyDict String :=
  let records := tenantRecords s.runs tenantId
  let skip := records.map Prod.fst
  let known := Keyset.merge Prod.fst
    (memoryStream cal tenantId records s.checkpoints s.registry boundary taskClass terminal)
    (checkpointStream cal tenantId s.checkpoints skip boundary taskClass terminal (limit + 1))
  let head := known.take (limit + 1)
  let floor := head[limit]?.map Prod.fst
  let accepted := registryStream cal tenantId s.registry s.checkpoints skip boundary floor taskClass
    terminal (limit + 1)
  pageOf limit ((Keyset.merge Prod.fst head accepted).take (limit + 1))

def listRunPage (cal : Calendar) (s : Sources) (tenantId : String) (limit : ℕ)
    (taskClass terminal : Option String) (cursor : Option String) :
    Except Refusal (Keyset.Page PyDict String) := do
  if limit < 1 then throw .limitTooSmall
  let boundary ← cursorBoundary cal cursor
  return pageBelow cal s tenantId limit taskClass terminal boundary

end Recertia.RunList
