import Recertia.Ledger.Repair

/-! Closing a store receipt: what is written, to the ledger first and to `receipts.jsonl` after
(`ops/receipts.py`). -/
namespace Recertia.Receipts

open Json (Dict Value)
open Lines (Bytes)
open Ledger (AppendArgs LedgerEntry)

structure ResidueManifestEntry where
  path : String
  contentHash : String
  bytes : ℕ

inductive CompressionLevel
  | l0 | l1 | l2 | l3
  deriving DecidableEq, Repr

def CompressionLevel.literal : CompressionLevel → String
  | .l0 => "L0"
  | .l1 => "L1"
  | .l2 => "L2"
  | .l3 => "L3"

inductive CompressionDelta
  | down | same | up
  deriving DecidableEq, Repr

def CompressionDelta.literal : CompressionDelta → Int
  | .down => -1
  | .same => 0
  | .up => 1

structure CompressionMove where
  objectId : String
  fromLevel : CompressionLevel
  toLevel : CompressionLevel
  delta : CompressionDelta
  evidenceRef : Option String

structure ValidityFrontier where
  currentCount : ℕ
  supersededCount : ℕ
  note : Option String

inductive ReceiptCloser
  | curator | sleep | operator | upgradeGenesis
  deriving DecidableEq, Repr

def ReceiptCloser.literal : ReceiptCloser → String
  | .curator => "curator"
  | .sleep => "sleep"
  | .operator => "operator"
  | .upgradeGenesis => "upgrade_genesis"

/-- `at` is its ISO 8601 text. -/
structure StoreReceipt where
  receiptId : String
  seq : ℕ
  prevReceiptHash : String
  receiptHash : String
  closedBy : ReceiptCloser
  genesis : Bool
  reviewedGit : Option String
  foldDigest : Option String
  residueCid : Option String
  residueManifest : List ResidueManifestEntry
  compressionMoves : List CompressionMove
  validityFrontier : Option ValidityFrontier
  ledgerSeq : Option ℕ
  at_ : String

def nullable {α : Type} (encode : α → Value) : Option α → Value
  | some a => encode a
  | none => .null

def ResidueManifestEntry.dump (e : ResidueManifestEntry) : Value :=
  .dict [("path", .str e.path), ("content_hash", .str e.contentHash), ("bytes", .int e.bytes)]

def CompressionMove.dump (m : CompressionMove) : Value :=
  .dict [("object_id", .str m.objectId), ("from_level", .str m.fromLevel.literal),
    ("to_level", .str m.toLevel.literal), ("delta", .int m.delta.literal),
    ("evidence_ref", nullable .str m.evidenceRef)]

def ValidityFrontier.dump (v : ValidityFrontier) : Value :=
  .dict [("current_count", .int v.currentCount), ("superseded_count", .int v.supersededCount),
    ("note", nullable .str v.note)]

/-- `model_dump(mode="json")` -/
def StoreReceipt.modelDump (r : StoreReceipt) : Dict :=
  [("receipt_id", .str r.receiptId), ("seq", .int r.seq),
    ("prev_receipt_hash", .str r.prevReceiptHash), ("receipt_hash", .str r.receiptHash),
    ("closed_by", .str r.closedBy.literal), ("genesis", .bool r.genesis),
    ("reviewed_git", nullable .str r.reviewedGit), ("fold_digest", nullable .str r.foldDigest),
    ("residue_cid", nullable .str r.residueCid),
    ("residue_manifest", .list (r.residueManifest.map ResidueManifestEntry.dump)),
    ("compression_moves", .list (r.compressionMoves.map CompressionMove.dump)),
    ("validity_frontier", nullable ValidityFrontier.dump r.validityFrontier),
    ("ledger_seq", nullable (fun n : ℕ => .int n) r.ledgerSeq), ("at", .str r.at_)]

def genesisReceiptHash : String := Ledger.genesisHash

/-- A regular file of the tree: its parts below the root, and its bytes. -/
structure TreeFile where
  parts : List String
  content : Bytes

def TreeFile.name (f : TreeFile) : String := f.parts.getLast?.getD ""
def TreeFile.path (f : TreeFile) : String := "/".intercalate f.parts

/-- Lock files and SQLite sidecars. -/
def skipInventory (name : String) : Bool :=
  name == ".lock" || name.endsWith ".lock" || name.endsWith "-wal" || name.endsWith "-shm"

def operatorPlane : List (List String) :=
  [["api_keys.sqlite"], ["job_quota.json"], ["jobs", "job_quota.json"]]

variable (c : Ledger.Codec)

def fileEntry (f : TreeFile) : ResidueManifestEntry :=
  ⟨f.path, c.sha256 f.content, f.content.length⟩

/-- `inventory_tree`, over the regular files in the order of their paths. -/
def inventoryTree (tree : List TreeFile) : List ResidueManifestEntry :=
  (tree.filter fun f => !skipInventory f.name).map (fileEntry c)

/-- `_with_operator_plane` -/
def withOperatorPlane (tree : List TreeFile) (entries : List ResidueManifestEntry) :
    List ResidueManifestEntry :=
  operatorPlane.foldl (fun entries parts =>
    match tree.find? fun f => f.parts = parts with
    | none => entries
    | some f =>
      if skipInventory f.name || entries.any (fun e => e.path = f.path) then entries
      else entries ++ [fileEntry c f]) entries

def treeSizeBytes (tree : List TreeFile) : ℕ :=
  tree.foldl (fun total f => total + f.content.length) 0

inductive ReceiptError
  | cannotMeasureDisk
  | freeDiskBelow (free size : ℕ)
  deriving DecidableEq, Repr

/-- What a close finds: the tree, the free bytes of its disk, the head of the checkout, the
clock, and the signing key of the ledger. -/
structure Request where
  genesis : Bool
  actor : String
  tree : List TreeFile
  freeDisk : Option ℕ
  reviewedGit : Option String
  now : String
  ledgerNow : String
  key : Option Bytes

/-- `assert_receipt_disk` -/
def assertReceiptDisk (q : Request) : Except ReceiptError Unit :=
  match q.freeDisk with
  | none => .error .cannotMeasureDisk
  | some free =>
    if free < 2 * treeSizeBytes q.tree then .error (.freeDiskBelow free (treeSizeBytes q.tree))
    else .ok ()

/-- The digest of a body without its `receipt_hash`. -/
def bodyHash (body : Dict) : String :=
  c.sha256 (Value.dict (body.filter fun item => item.1 ≠ "receipt_hash")).dumps.toUTF8.data.toList

/-- `_receipt_hash` -/
def receiptHash (r : StoreReceipt) : String := bodyHash c r.modelDump

/-- `build_close_receipt`, over the receipts of the index. -/
def buildCloseReceipt (receipts : List StoreReceipt) (q : Request) :
    Except ReceiptError StoreReceipt := do
  if q.genesis then assertReceiptDisk q
  let manifest := withOperatorPlane c q.tree (inventoryTree c q.tree)
  let prev := receipts.getLast?
  let seq := (prev.map fun r => r.seq + 1).getD 0
  let draft : StoreReceipt :=
    { receiptId := (if q.genesis then "genesis" else "receipt") ++ "-" ++ toString seq
      seq, prevReceiptHash := (prev.map (·.receiptHash)).getD genesisReceiptHash
      receiptHash := "pending"
      closedBy := if q.genesis then .upgradeGenesis else .operator
      genesis := q.genesis, reviewedGit := q.reviewedGit, foldDigest := none, residueCid := none
      residueManifest := manifest, compressionMoves := [], validityFrontier := none
      ledgerSeq := none, at_ := q.now }
  return { draft with receiptHash := receiptHash c draft }

/-- The ledger and the index `receipts.jsonl` next to it. -/
structure Plane where
  ledger : List LedgerEntry
  receipts : List StoreReceipt

/-- `HashChainLedger.append` on the entries of a ledger. -/
def appendEntry (ledger : List LedgerEntry) (args : AppendArgs) : Option LedgerEntry :=
  Ledger.writtenEntry c args ledger.length (Ledger.tipHash Ledger.genesisHash ledger)

def closeArgs (q : Request) (r : StoreReceipt) : AppendArgs where
  actor := q.actor
  action := .closeReceipt
  target := r.receiptId
  evidence := r.modelDump
  at_ := q.ledgerNow
  key := q.key

/-- Where the process stops inside a close, if it does. -/
inductive Stop
  | beforeLedger
  | beforeReceipts
  | never
  deriving DecidableEq, Repr

/-- `close_receipt`: the index line holds the ledger position, the ledger entry does not. -/
def closeReceipt (p : Plane) (q : Request) (r : StoreReceipt) (stop : Stop) : Plane :=
  if stop = .beforeLedger then p
  else
    match appendEntry c p.ledger (closeArgs q r) with
    | none => p
    | some entry =>
      let p := { p with ledger := p.ledger ++ [entry] }
      if stop = .beforeReceipts then p
      else
        let r := if r.ledgerSeq = none then { r with ledgerSeq := some entry.seq } else r
        { p with receipts := p.receipts ++ [r] }

/-- What happens to the plane: closes, and what else is appended to the ledger. `close_receipt` is
the only appender of its action. -/
inductive Call
  | close (q : Request) (stop : Stop)
  | append (args : AppendArgs) (other : args.action ≠ .closeReceipt)

def step (p : Plane) : Call → Plane
  | .close q stop =>
    match buildCloseReceipt c p.receipts q with
    | .error _ => p
    | .ok r => closeReceipt c p q r stop
  | .append args _ => { p with ledger := p.ledger ++ (appendEntry c p.ledger args).toList }

def run (calls : List Call) : Plane := calls.foldl (step c) ⟨[], []⟩

end Recertia.Receipts
