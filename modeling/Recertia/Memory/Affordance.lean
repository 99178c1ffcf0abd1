import Mathlib.Data.List.Sort
import Recertia.Lib.SqlValue

/-! Affordance counters in `runtime.db`: the import of a legacy `affordances.json`, and the records
of tools and resources. -/
namespace Recertia.Affordance

open Sql
open Json (LoadError PyFloat)

/-- Its fields are whatever the file holds; a field that is missing has the default. -/
structure ToolAffordance where
  tool : JsonValue
  invocations : JsonValue := .int 0
  failures : JsonValue := .int 0
  durationsS : JsonValue := .list []
  errorSignatures : JsonValue := .object []
  costsUsd : JsonValue := .list []

structure ResourceAffordance where
  kind : JsonValue
  id : JsonValue
  waitsMs : JsonValue := .list []
  conflicts : JsonValue := .int 0
  timeouts : JsonValue := .int 0
  observedCeiling : JsonValue := .int 1

/-- A resource is its kind and its id. -/
abbrev ResourceKey := Str × Str

structure Aggregates where
  tools : Table Str ToolAffordance
  resources : Table ResourceKey ResourceAffordance

/-! ### The legacy file -/

/-- `**raw`, for a dataclass with these fields. -/
def keywords? (fields required : List Str) (raw : JsonValue) : Option (Table Str JsonValue) :=
  raw.dict?.filter fun kw =>
    (kw.keys.all fun key => key ∈ fields) && required.all fun key => key ∈ kw.keys

/-- `ToolAffordance(**raw)` -/
def toolAffordance? (raw : JsonValue) : Option ToolAffordance :=
  (keywords? [str "tool", str "invocations", str "failures", str "durations_s",
      str "error_signatures", str "costs_usd"] [str "tool"] raw).map fun kw =>
    let agg : ToolAffordance := { tool := (kw.get? (str "tool")).getD .null }
    { agg with
      invocations := (kw.get? (str "invocations")).getD agg.invocations
      failures := (kw.get? (str "failures")).getD agg.failures
      durationsS := (kw.get? (str "durations_s")).getD agg.durationsS
      errorSignatures := (kw.get? (str "error_signatures")).getD agg.errorSignatures
      costsUsd := (kw.get? (str "costs_usd")).getD agg.costsUsd }

/-- `ResourceAffordance(**raw)` -/
def resourceAffordance? (raw : JsonValue) : Option ResourceAffordance :=
  (keywords? [str "kind", str "id", str "waits_ms", str "conflicts", str "timeouts",
      str "observed_ceiling"] [str "kind", str "id"] raw).map fun kw =>
    let agg : ResourceAffordance :=
      { kind := (kw.get? (str "kind")).getD .null, id := (kw.get? (str "id")).getD .null }
    { agg with
      waitsMs := (kw.get? (str "waits_ms")).getD agg.waitsMs
      conflicts := (kw.get? (str "conflicts")).getD agg.conflicts
      timeouts := (kw.get? (str "timeouts")).getD agg.timeouts
      observedCeiling := (kw.get? (str "observed_ceiling")).getD agg.observedCeiling }

/-- `kind, rid = key.split(":", 1)` -/
def splitKey? (key : Str) : Option ResourceKey :=
  match key.span (· ≠ 58) with
  | (kind, _ :: rid) => some (kind, rid)
  | (_, []) => none

/-- What `_parse_legacy` makes of the value in the file: nothing where it has the wrong shape. -/
def aggregates? (data : JsonValue) : Option Aggregates := do
  let data ← data.dict?
  let tools ← ((data.get? (str "tools")).getD (.object [])).dict?
  let tools ← tools.rows.mapM fun row => (toolAffordance? row.2).map (row.1, ·)
  let resources ← ((data.get? (str "resources")).getD (.object [])).dict?
  let resources ← resources.rows.mapM fun row => do
    let key ← splitKey? row.1
    let res ← resourceAffordance? row.2
    pure (key, res)
  pure ⟨dictOf tools, dictOf resources⟩

/-- What a write raises. -/
inductive WriteError
  /-- the legacy file nests too deep -/
  | recursion
  /-- a field of the legacy file is of a type without the operation that the import needs -/
  | field
  | statement (e : BindError)
  /-- a primary key -/
  | unique
  deriving DecidableEq, Repr

variable {Content : Type*} (loads : Content → Except LoadError JsonValue)

/-- `_parse_legacy` -/
def parseLegacy (content : Content) : Except WriteError (Option Aggregates) :=
  match loads content with
  | .ok data => .ok (aggregates? data)
  | .error .valueError => .ok none
  | .error .recursionError => .error .recursion

/-! ### The tables -/

structure ToolRow where
  invocations : Value
  failures : Value
  seq : ℕ

structure SignatureRow where
  count : Value
  lastSeq : ℕ

structure ResourceRow where
  conflicts : Value
  timeouts : Value
  observedCeiling : Value

/-- The tables of one tenant; samples and waits are in the order of their ids. -/
structure Rows where
  tools : Table Str ToolRow := .empty
  samples : List (Str × Bound × Bound) := []
  signatures : Table (Str × Str) SignatureRow := .empty
  resources : Table ResourceKey ResourceRow := .empty
  waits : List (ResourceKey × Bound) := []

/-- What the store computes with: SQLite's numbers, and Python's order of counts. -/
structure Platform where
  sql : Numerics
  /-- `sorted(items, key=lambda kv: -kv[1])` -/
  sortedByCount : List (Str × JsonValue) → List (Str × JsonValue)
  sorted_perm : ∀ items, (sortedByCount items).Perm items

/-- `affordance_sample_cap()`, which refuses a cap below one; `LIMIT` binds it in 64 bits. -/
structure SampleCap where
  cap : ℕ
  checked : 1 ≤ cap
  bounded : cap ≤ 9223372036854775807

variable (P : Platform) (cap : SampleCap)

/-- `xs[len(xs) - n:]` -/
def newest {α : Type*} (n : ℕ) (xs : List α) : List α := xs.drop (xs.length - n)

def liftBind {α : Type*} (x : Except BindError α) : Except WriteError α := x.mapError .statement

def insertRow {K V : Type*} [DecidableEq K] (t : Table K V) (k : K) (v : V) :
    Except WriteError (Table K V) :=
  match t.insert k v with
  | some t' => .ok t'
  | none => .error .unique

def ofOption {α : Type*} : Option α → Except WriteError α
  | some a => .ok a
  | none => .error .field

def insertSample (tool : Str) (duration cost : JsonValue) :
    Except WriteError (Str × Bound × Bound) := do
  let duration ← liftBind (bindNotNull duration)
  let cost ← liftBind (bindNotNull cost)
  pure (tool, duration, cost)

def insertSignature (tool : Str) (signatures : Table (Str × Str) SignatureRow)
    (item : Str × JsonValue) : Except WriteError (Table (Str × Str) SignatureRow) := do
  let signature ← liftBind (bindText item.1)
  let count ← liftBind (integerColumn P.sql item.2)
  insertRow signatures (tool, signature) ⟨count, 0⟩

/-- The pairs of durations and costs that the import keeps, aligned at their newest. -/
def newestPairs (durations costs : List JsonValue) : List (JsonValue × JsonValue) :=
  let n := min durations.length costs.length
  newest cap.cap ((newest n durations).zip (newest n costs))

/-- The signatures that the import keeps. -/
def topSignatures (signatures : Table Str JsonValue) : Except WriteError (List (Str × JsonValue)) :=
  if signatures.rows.all fun row => row.2.isNumber then
    .ok ((P.sortedByCount signatures.rows).take cap.cap)
  else .error .field

/-- The body of the first loop of `_insert_legacy`. -/
def insertTool (rows : Rows) (item : Str × ToolAffordance) : Except WriteError Rows := do
  let tool ← liftBind (bindText item.1)
  let invocations ← liftBind (integerColumn P.sql item.2.invocations)
  let failures ← liftBind (integerColumn P.sql item.2.failures)
  let tools ← insertRow rows.tools tool ⟨invocations, failures, 0⟩
  let durations ← ofOption item.2.durationsS.sequence?
  let costs ← ofOption item.2.costsUsd.sequence?
  let samples ← (newestPairs cap durations costs).mapM fun pair => insertSample tool pair.1 pair.2
  let signatures ← ofOption item.2.errorSignatures.dict?
  let top ← topSignatures P cap signatures
  let signatures ← top.foldlM (insertSignature P tool) rows.signatures
  pure { rows with tools, samples := rows.samples ++ samples, signatures }

/-- The body of the second loop. -/
def insertResource (rows : Rows) (item : ResourceKey × ResourceAffordance) :
    Except WriteError Rows := do
  let kind ← liftBind (bindText item.1.1)
  let rid ← liftBind (bindText item.1.2)
  let conflicts ← liftBind (integerColumn P.sql item.2.conflicts)
  let timeouts ← liftBind (integerColumn P.sql item.2.timeouts)
  let observedCeiling ← liftBind (integerColumn P.sql item.2.observedCeiling)
  let resources ← insertRow rows.resources (kind, rid) ⟨conflicts, timeouts, observedCeiling⟩
  let waits ← ofOption item.2.waitsMs.sequence?
  let waits ← (newest cap.cap waits).mapM fun wait => liftBind (bindNotNull wait)
  pure { rows with resources, waits := rows.waits ++ waits.map ((kind, rid), ·) }

/-- `_insert_legacy` -/
def insertLegacy (agg : Aggregates) (rows : Rows) : Except WriteError Rows := do
  let rows ← agg.tools.rows.foldlM (insertTool P cap) rows
  agg.resources.rows.foldlM (insertResource P cap) rows

inductive ImportStatus
  | noFile | corrupt | imported
  deriving DecidableEq, Repr

/-- What `_import_legacy` does without a marker: the status and the rows to commit with it. -/
def importLegacy (file : Option Content) (rows : Rows) : Except WriteError (ImportStatus × Rows) :=
  match file with
  | none => .ok (.noFile, rows)
  | some content => do
    match ← parseLegacy loads content with
    | none => pure (.corrupt, rows)
    | some agg => return (.imported, ← insertLegacy P cap agg rows)

/-! ### Records -/

structure ToolResult where
  tool : Str
  ok : Bool
  durationS : PyFloat
  costUsd : PyFloat
  errorSignature : Option Str

structure ResourceConflict where
  kind : Str
  rid : Str
  waitedMs : Int
  timedOut : Bool

/-- Without the first `n` of the rows that are meant. -/
def dropFirst {α : Type*} (meant : α → Bool) : ℕ → List α → List α
  | 0, rows => rows
  | _, [] => []
  | n + 1, row :: rows =>
    if meant row then dropFirst meant n rows else row :: dropFirst meant (n + 1) rows

/-- `DELETE ... AND id NOT IN (SELECT id ... ORDER BY id DESC LIMIT cap)` -/
def keepNewest {α : Type*} (meant : α → Bool) (rows : List α) : List α :=
  dropFirst meant (rows.countP meant - cap.cap) rows

/-- `ORDER BY last_seq DESC, count DESC, signature` -/
def keptBefore (a b : (Str × Str) × SignatureRow) : Bool :=
  b.2.lastSeq < a.2.lastSeq || a.2.lastSeq = b.2.lastSeq &&
    (!P.sql.le a.2.count b.2.count || P.sql.le b.2.count a.2.count && textLe a.1.2 b.1.2)

/-- The signatures of a tool without the least recently seen ones. -/
def evict (tool : Str) (signatures : Table (Str × Str) SignatureRow) :
    Table (Str × Str) SignatureRow :=
  let mine := signatures.rows.filter fun row => row.1.1 = tool
  let kept := ((mine.insertionSort fun a b => keptBefore P a b = true).take cap.cap).map Prod.fst
  signatures.delete fun key _ => key.1 = tool && key ∉ kept

def recordSignature (tool : Str) (seq : ℕ) (signatures : Table (Str × Str) SignatureRow)
    (signature : Str) : Except WriteError (Table (Str × Str) SignatureRow) := do
  let signature ← liftBind (bindText signature)
  let row : SignatureRow := ⟨.ofInt 1, seq⟩
  pure <| evict P cap tool <| signatures.upsert (tool, signature) row fun row =>
    ⟨row.count.plus P.sql true, seq⟩

/-- `record_tool`, as one transaction. -/
def recordTool (result : ToolResult) (rows : Rows) : Except WriteError Rows := do
  let tool ← liftBind (bindText result.tool)
  let row : ToolRow := ⟨.ofInt 1, .ofInt (!result.ok).toNat, 1⟩
  let tools := rows.tools.upsert tool row fun row =>
    ⟨row.invocations.plus P.sql true, row.failures.plus P.sql (!result.ok), row.seq + 1⟩
  let seq := ((tools.get? tool).map ToolRow.seq).getD 0
  let sample ← insertSample tool (.float result.durationS) (.float result.costUsd)
  let samples := keepNewest cap (fun row => row.1 = tool) (rows.samples ++ [sample])
  let rows := { rows with tools, samples }
  match result.errorSignature with
  | none | some [] => pure rows
  | some signature =>
    let signatures ← recordSignature P cap tool seq rows.signatures signature
    pure { rows with signatures }

/-- `record_conflict`, as one transaction. -/
def recordConflict (conflict : ResourceConflict) (rows : Rows) : Except WriteError Rows := do
  let kind ← liftBind (bindText conflict.kind)
  let rid ← liftBind (bindText conflict.rid)
  let wait ← liftBind (bindNotNull (.int conflict.waitedMs))
  let row : ResourceRow := ⟨.ofInt 1, .ofInt conflict.timedOut.toNat, .ofInt 1⟩
  let resources := rows.resources.upsert (kind, rid) row fun row =>
    ⟨row.conflicts.plus P.sql true, row.timeouts.plus P.sql conflict.timedOut,
      if 0 < conflict.waitedMs then .ofInt 1 else row.observedCeiling⟩
  let waits := keepNewest cap (fun row => row.1 = (kind, rid)) (rows.waits ++ [((kind, rid), wait)])
  pure { rows with resources, waits }

/-- What a caller records. -/
inductive Record
  | tool (result : ToolResult)
  | conflict (conflict : ResourceConflict)

def Record.commit (rows : Rows) : Record → Except WriteError Rows
  | .tool r => recordTool P cap r rows
  | .conflict c => recordConflict P cap c rows

end Recertia.Affordance
