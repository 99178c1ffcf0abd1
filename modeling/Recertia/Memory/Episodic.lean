import Mathlib.Logic.Function.Basic
import Recertia.Lib.Table
import Recertia.Lib.Transition

/-! The case index of the episodic memory (`memory/episodic/__init__.py`), shared by stores on one
directory. -/
namespace Recertia.Episodic

inductive CaseOutcome
  | solved | failed | abandoned
  deriving DecidableEq, Repr

structure DeadEnd where
  approach : String
  whyFailed : String
  evidenceRef : Option String
  deriving DecidableEq

/-- A case; `rest` is the text of the fields that the index does not repeat. -/
structure CaseRecord where
  caseId : String
  runId : String
  attemptNo : Int
  taskClass : Option String
  outcome : CaseOutcome
  failureClass : Option String
  deadEnd : Option DeadEnd
  approach : Option String
  rest : String
  deriving DecidableEq

/-- A line of `index.jsonl`. -/
structure IndexRow where
  caseId : String
  hash : String
  runId : String
  attemptNo : Int
  outcome : CaseOutcome
  failureClass : Option String
  taskClass : Option String
  approach : Option String
  hasDeadEnd : Bool
  deriving DecidableEq

inductive Kind
  | deadEnd | solved
  deriving DecidableEq, Repr

abbrev BucketKey := Kind × Option String

def kindsOf (row : IndexRow) : List Kind :=
  (if row.hasDeadEnd then [.deadEnd] else []) ++
    (if row.outcome = .solved then [.solved] else [])

/-- `_bucket_keys`: one per kind, times "any class" and its own class. -/
def bucketKeys (row : IndexRow) : List BucketKey :=
  (kindsOf row).flatMap fun kind => [(kind, none), (kind, row.taskClass)]

abbrev Buckets := BucketKey → List IndexRow

abbrev Counts := Option String → ℕ

def addRow (buckets : Buckets) (row : IndexRow) : Buckets :=
  (bucketKeys row).foldl (fun b key => Function.update b key (b key ++ [row])) buckets

def bucketsOf (rows : List IndexRow) : Buckets := rows.foldl addRow fun _ => []

def addCount (counts : Counts) (taskClass : Option String) : Counts :=
  Function.update counts taskClass (counts taskClass + 1)

def countsOf (rows : List IndexRow) : Counts :=
  rows.foldl (fun counts row => addCount counts row.taskClass) fun _ => 0

/-- The directory of the stores: the index, if it was written, and `cases/<hash>.json`. -/
structure Disk where
  index : Option (List IndexRow)
  cases : Table String CaseRecord

def Disk.rows (disk : Disk) : List IndexRow := disk.index.getD []

/-- What one `EpisodicStore` keeps in memory. -/
structure Store where
  cache : Option (List IndexRow) := none
  stat : Option ℕ := none
  buckets : Option Buckets := none
  counts : Option Counts := none

-- `lineSize`: the length of a row's line without its end
-- `contentHash`: the digest of a case's text
variable (lineSize : IndexRow → ℕ) (contentHash : CaseRecord → String)

def fileSize : List IndexRow → ℕ
  | [] => 0
  | row :: rows => lineSize row + 1 + fileSize rows

/-- `_index_file_stat`; its other half is the time of the last change. -/
def Disk.stat (disk : Disk) : Option ℕ := disk.index.map (fileSize lineSize)

/-- `_index_unlocked`: the store with its cache read again if the file is another one. -/
def Store.refresh (disk : Disk) (s : Store) : Store :=
  if s.cache ≠ none ∧ disk.stat lineSize = s.stat then s
  else { cache := some disk.rows, stat := disk.stat lineSize }

/-- `_buckets_unlocked` -/
def Store.withBuckets (disk : Disk) (s : Store) : Buckets × Store :=
  let s := s.refresh lineSize disk
  match s.buckets with
  | some buckets => (buckets, s)
  | none =>
    let buckets := bucketsOf (s.cache.getD [])
    (buckets, { s with buckets := some buckets })

def Store.countForTaskClass (disk : Disk) (s : Store) (taskClass : Option String) : ℕ × Store :=
  let s := s.refresh lineSize disk
  match s.counts with
  | some counts => (counts taskClass, s)
  | none =>
    let counts := countsOf (s.cache.getD [])
    (counts taskClass, { s with counts := some counts })

/-- `task_class or None` -/
def orNone : Option String → Option String
  | some "" => none
  | taskClass => taskClass

/-- `_recent_rows`: `bucket[-limit:][::-1]` -/
def Store.recentRows (disk : Disk) (s : Store) (kind : Kind) (taskClass : Option String)
    (limit : Int) : List IndexRow × Store :=
  if limit ≤ 0 then ([], s)
  else
    let (buckets, s) := s.withBuckets lineSize disk
    let bucket := buckets (kind, orNone taskClass)
    ((bucket.drop (bucket.length - limit.toNat)).reverse, s)

def Store.deadEndsFor (disk : Disk) (s : Store) (taskClass : Option String) (limit : Int) :
    List (Option CaseRecord) × Store :=
  let (rows, s) := s.recentRows lineSize disk .deadEnd taskClass limit
  (rows.map fun row => disk.cases.get? row.hash, s)

def Store.solvedCaseIdsFor (disk : Disk) (s : Store) (taskClass : Option String) (limit : Int) :
    List String × Store :=
  let (rows, s) := s.recentRows lineSize disk .solved taskClass limit
  (rows.map IndexRow.caseId, s)

def rowOf (case_ : CaseRecord) : IndexRow where
  caseId := case_.caseId
  hash := contentHash case_
  runId := case_.runId
  attemptNo := case_.attemptNo
  outcome := case_.outcome
  failureClass := case_.failureClass
  taskClass := case_.taskClass
  approach := case_.approach
  hasDeadEnd := case_.deadEnd.isSome

/-- `write`, without the cluster of a dead end. -/
def Store.write (disk : Disk) (s : Store) (case_ : CaseRecord) : Disk × Store :=
  let row := rowOf contentHash case_
  let disk : Disk :=
    { index := some (disk.rows ++ [row])
      cases := disk.cases.insertOrIgnore row.hash case_ }
  match s.cache with
  | none => (disk, s)
  | some rows =>
    (disk,
      { cache := some (rows ++ [row])
        stat := disk.stat lineSize
        buckets := s.buckets.map fun buckets => addRow buckets row
        counts := s.counts.map fun counts => addCount counts row.taskClass })

/-- Several stores on one directory. -/
structure World (ι : Type) where
  disk : Disk
  stores : ι → Store

inductive Label (ι : Type)
  | write (i : ι) (case_ : CaseRecord)
  | deadEndsFor (i : ι) (taskClass : Option String) (limit : Int)
  | solvedCaseIdsFor (i : ι) (taskClass : Option String) (limit : Int)
  | countForTaskClass (i : ι) (taskClass : Option String)

variable {ι : Type} [DecidableEq ι]

def World.set (w : World ι) (i : ι) (s : Store) : World ι :=
  { w with stores := Function.update w.stores i s }

def step (w : World ι) : Label ι → World ι
  | .write i case_ =>
    let (disk, s) := (w.stores i).write lineSize contentHash w.disk case_
    { disk, stores := Function.update w.stores i s }
  | .deadEndsFor i taskClass limit =>
    w.set i ((w.stores i).deadEndsFor lineSize w.disk taskClass limit).2
  | .solvedCaseIdsFor i taskClass limit =>
    w.set i ((w.stores i).solvedCaseIdsFor lineSize w.disk taskClass limit).2
  | .countForTaskClass i taskClass =>
    w.set i ((w.stores i).countForTaskClass lineSize w.disk taskClass).2

def system : Transition.System (World ι) (Label ι) := ⟨fun w l => some (step lineSize contentHash w l)⟩

/-- New stores on a directory. -/
def start (disk : Disk) : World ι := ⟨disk, fun _ => {}⟩

end Recertia.Episodic
