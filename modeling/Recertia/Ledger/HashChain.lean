import Recertia.Lib.Json
import Recertia.Lib.Lines
import Recertia.Lib.Transition
import Mathlib.Logic.Function.Basic

/-! `HashChainLedger`: the append-only file of entries, its sidecar, and the tip that
each open handle remembers. The handles' flock makes every method one step. Durability,
the quarantine copy of a repair and the counter of parsed lines are left out. -/
namespace Recertia.Ledger
open Lines Json Transition

inductive LedgerAction
  | write
  | advanceToCandidate
  | quarantineVersion
  | deprecate
  | policyChange
  | lintReject
  | compressSkill
  | revokeLineage
  | composeBlock
  | publishPatchTemplate
  | liftReport
  | faithfulnessReport
  | applicabilityReject
  | meaActivationFallback
  | closeReceipt
  | ledgerRepaired
  deriving DecidableEq, Repr

def LedgerAction.literal : LedgerAction → String
  | .write => "write"
  | .advanceToCandidate => "advance_to_candidate"
  | .quarantineVersion => "quarantine_version"
  | .deprecate => "deprecate"
  | .policyChange => "policy_change"
  | .lintReject => "lint_reject"
  | .compressSkill => "compress_skill"
  | .revokeLineage => "revoke_lineage"
  | .composeBlock => "compose_block"
  | .publishPatchTemplate => "publish_patch_template"
  | .liftReport => "lift_report"
  | .faithfulnessReport => "faithfulness_report"
  | .applicabilityReject => "applicability_reject"
  | .meaActivationFallback => "mea_activation_fallback"
  | .closeReceipt => "close_receipt"
  | .ledgerRepaired => "ledger_repaired"

/-- `at` is its ISO 8601 text. -/
structure LedgerEntry where
  seq : Nat
  prevHash : String
  entryHash : String
  actor : String
  action : LedgerAction
  target : String
  evidence : Dict
  at_ : String
  deriving Repr

/-- The entry that comes back from its own line. -/
def LedgerEntry.roundTrip (e : LedgerEntry) : LedgerEntry :=
  { e with evidence := jsonModeDict e.evidence }

/-- What the ledger takes from elsewhere: the digests, `LedgerEntry.model_validate_json`
and `model_dump_json`, and whether `StoreReceipt.model_validate` accepts. -/
structure Codec where
  sha256 : Bytes → String
  hmacSha256 : Bytes → Bytes → String
  modelValidateJson : Bytes → Option LedgerEntry
  modelDumpJson : LedgerEntry → Option Bytes
  storeReceipt : Dict → Bool

inductive Reason
  | torn
  | lineDoesNotParse
  | wrongSeq (position seq : Nat)
  | chainBroken (seq : Nat) (prevHash expected : String)
  | hashMismatch (seq : Nat) (entryHash : String) (recomputed : Option String)
  | notAStoreReceipt (seq : Nat)
  | notATornTail
  deriving DecidableEq, Repr

inductive LedgerError
  | verification (r : Reason)
  | unavailable (r : Reason)
  | leaseLost
  | serialization
  | interrupted
  deriving DecidableEq, Repr

def genesisHash : String := "0000000000000000000000000000000000000000000000000000000000000000"

def sigField : String := "_ledger_sig"

def withoutSig (evidence : Dict) : Dict := evidence.filter fun item => item.1 ≠ sigField

variable (c : Codec)

/-- `_canonical_bytes`: every field but `entry_hash`. -/
def canonicalBytes (e : LedgerEntry) : Option Bytes :=
  if dumpableDict e.evidence then
    let payload : Dict := [("seq", .int e.seq), ("prev_hash", .str e.prevHash),
      ("actor", .str e.actor), ("action", .str e.action.literal), ("target", .str e.target),
      ("evidence", .dict (jsonModeDict e.evidence)), ("at", .str e.at_)]
    some (Value.dict payload).dumps.toUTF8.data.toList
  else none

def computeEntryHash (e : LedgerEntry) : Option String :=
  (canonicalBytes e).map c.sha256

/-- `HmacLedgerHook.before_append`, which signs the entry without its signature field. -/
def beforeAppend (key : Option Bytes) (draft : LedgerEntry) : Option LedgerEntry :=
  match key with
  | none => some draft
  | some key =>
    let evidence := withoutSig draft.evidence
    (canonicalBytes { draft with evidence }).map fun body =>
      let sig : Value := .dict [("alg", .str "hmac-sha256"), ("key_id", .str "hmac-sha256:1"),
        ("sig", .str (c.hmacSha256 key body))]
      { draft with evidence := evidence ++ [(sigField, sig)] }

def tailWindow : Nat := 1048576

/-- Where `read_tail` starts: the window grows until it holds two newlines or the whole
file. `end_` falls with every pass, so the file's length bounds their number. -/
def tailStart (file : Bytes) : Nat → Nat → Nat → Nat
  | 0, _, _ => 0
  | passes + 1, end_, window =>
    let start := end_ - window
    if 2 ≤ (file.drop start).count newline ∨ start = 0 then start
    else tailStart file passes start (window * 2)

/-- The last record of the window that is not blank. -/
def tailLine (data : Bytes) : Option Bytes :=
  (records data).dropLast.reverse.find? fun line => !isBlank line

/-- `read_tail`: the last complete entry and the length of the complete prefix. -/
def readTail (file : Option Bytes) : Except LedgerError (Option LedgerEntry × Nat) :=
  let raw := file.getD []
  let data := raw.drop (tailStart raw raw.length raw.length tailWindow)
  if newline ∈ data then
    let completeLen := raw.length - (rest data).length
    match tailLine data with
    | none => .ok (none, completeLen)
    | some line =>
      match c.modelValidateJson line with
      | none => .error (.unavailable .lineDoesNotParse)
      | some e => .ok (some e, completeLen)
  else .ok (none, 0)

/-- `_entries_from_bytes` -/
def entriesFromBytes (data : Bytes) : Except LedgerError (List LedgerEntry) :=
  ((splitlines data).filter fun line => !isBlank line).mapM fun line =>
    match c.modelValidateJson line with
    | none => .error (.verification .lineDoesNotParse)
    | some e => .ok e

/-- `_verify_chain` -/
def verifyChain (expected : Nat) (prevHash : String) : List LedgerEntry → Except LedgerError Unit
  | [] => .ok ()
  | e :: es =>
    if e.seq ≠ expected then .error (.verification (.wrongSeq expected e.seq))
    else if e.prevHash ≠ prevHash then
      .error (.verification (.chainBroken e.seq e.prevHash prevHash))
    else
      let recomputed := computeEntryHash c { e with entryHash := "pending" }
      if recomputed ≠ some e.entryHash then
        .error (.verification (.hashMismatch e.seq e.entryHash recomputed))
      else if e.action = .closeReceipt ∧ c.storeReceipt (withoutSig e.evidence) = false then
        .error (.verification (.notAStoreReceipt e.seq))
      else verifyChain (expected + 1) e.entryHash es

/-- The entries of `data`, verified as a continuation of `start` entries up to `prevHash`. -/
def scanChain (start : Nat) (prevHash : String) (data : Bytes) :
    Except LedgerError (List LedgerEntry) := do
  let entries ← entriesFromBytes c data
  verifyChain c start prevHash entries
  return entries

/-- The hash that the next entry links to. -/
def tipHash (prevHash : String) (entries : List LedgerEntry) : String :=
  (entries.getLast?.map (·.entryHash)).getD prevHash

structure TipSidecar where
  entries : Nat
  nextSeq : Nat
  tipHash : String
  prefixBytes : Nat
  prefixSha256 : String
  deriving DecidableEq, Repr

abbrev HandleId := Nat

structure World where
  path : String
  file : Option Bytes
  sidecar : Option TipSidecar
  tip : HandleId → Option (Nat × String)

def World.raw (w : World) : Bytes := w.file.getD []

/-- A file that is not there matches nothing: opening it fails. -/
def sidecarMatches (file : Option Bytes) (side : TipSidecar) : Bool :=
  match file with
  | none => false
  | some raw =>
    side.prefixBytes ≤ raw.length && c.sha256 (raw.take side.prefixBytes) == side.prefixSha256

/-- `write_sidecar`, over whatever bytes the file has. -/
def writeSidecar (w : World) (entries : Nat) (tipHash : String) : World :=
  { w with
    sidecar := some
      { entries, nextSeq := entries, tipHash, prefixBytes := w.raw.length
        prefixSha256 := c.sha256 w.raw } }

def setTip (w : World) (h : HandleId) (tip : Nat × String) : World :=
  { w with tip := Function.update w.tip h (some tip) }

def observedTip : Option LedgerEntry → Nat × String
  | none => (0, genesisHash)
  | some last => (last.seq + 1, last.entryHash)

/-- Whether `_tip_for_append` takes the tip it reads off the last line without a rescan:
the handle remembers the same one, or a fresh handle finds it in a matching sidecar. -/
def trustsTail (w : World) (h : HandleId) (observed : Nat × String) : Bool :=
  match w.tip h with
  | some tip => tip == observed
  | none =>
    match w.sidecar with
    | none => false
    | some side => sidecarMatches c w.file side && (side.nextSeq, side.tipHash) == observed

/-- `_tip_for_append`, with `_scan_tip` in its last branch. -/
def tipForAppend (w : World) (h : HandleId) : Except LedgerError (Nat × String) := do
  let (last, completeLen) ← readTail c w.file
  if completeLen < w.raw.length then throw (.unavailable .torn)
  let observed := observedTip last
  if trustsTail c w h observed then return observed
  let entries ← entriesFromBytes c (w.raw.take completeLen)
  return (entries.length, tipHash genesisHash entries)

structure AppendArgs where
  actor : String
  action : LedgerAction
  target : String
  evidence : Dict
  at_ : String
  /-- the key of the hook, if there is one -/
  key : Option Bytes := none
  fenceOk : Bool := true

/-- Where an append is cut short: after some bytes of its line, or before its sidecar. -/
inductive Fault
  | midWrite (bytes : Nat)
  | beforeSidecar
  deriving DecidableEq, Repr

/-- `_append_locked` -/
def appendLocked (w : World) (h : HandleId) (args : AppendArgs) (fault : Option Fault) :
    Except LedgerError LedgerEntry × World :=
  match tipForAppend c w h with
  | .error e => (.error e, w)
  | .ok (seq, prevHash) =>
    let w := setTip w h (seq, prevHash)
    let draft : LedgerEntry :=
      { seq, prevHash, entryHash := "pending", actor := args.actor, action := args.action
        target := args.target, evidence := args.evidence, at_ := args.at_ }
    let written := do
      let draft ← beforeAppend c args.key draft
      let entryHash ← computeEntryHash c draft
      let entry := { draft with entryHash }
      let text ← c.modelDumpJson entry
      return (entry, text ++ [newline])
    match written with
    | none => (.error .serialization, w)
    | some (entry, line) =>
      match fault with
      | some (.midWrite bytes) =>
        (.error .interrupted, { w with file := some (w.raw ++ line.take bytes) })
      | some .beforeSidecar =>
        (.error .interrupted,
          setTip { w with file := some (w.raw ++ line) } h (seq + 1, entry.entryHash))
      | none =>
        (.ok entry, writeSidecar c
          (setTip { w with file := some (w.raw ++ line) } h (seq + 1, entry.entryHash))
          (seq + 1) entry.entryHash)

/-- `append`: `LeaseLost` comes before anything is read. -/
def append (w : World) (h : HandleId) (args : AppendArgs) (fault : Option Fault) :
    Except LedgerError LedgerEntry × World :=
  if args.fenceOk then appendLocked c w h args fault else (.error .leaseLost, w)

structure VerifyReport where
  entries : Nat
  full : Bool
  suffixEntries : Nat
  tipHash : String
  deriving DecidableEq, Repr

/-- The sidecar that `verify` starts from. -/
def usableSidecar (w : World) (full : Bool) (completeLen : Nat) : Option TipSidecar :=
  if full then none
  else w.sidecar.filter fun side => sidecarMatches c w.file side && side.prefixBytes ≤ completeLen

/-- `_verify_unlocked` -/
def verify (w : World) (h : HandleId) (full : Bool) : Except LedgerError VerifyReport × World :=
  match readTail c w.file with
  | .error _ => (.error (.verification .lineDoesNotParse), w)
  | .ok (_, completeLen) =>
    if completeLen < w.raw.length then (.error (.verification .torn), w)
    else
      let complete := w.raw.take completeLen
      match usableSidecar c w full completeLen with
      | some side =>
        match scanChain c side.entries side.tipHash (complete.drop side.prefixBytes) with
        | .error e => (.error e, w)
        | .ok suffix =>
          let tip := tipHash side.tipHash suffix
          let total := side.entries + suffix.length
          let w := setTip w h (total, tip)
          (.ok ⟨total, false, suffix.length, tip⟩,
            if suffix.isEmpty then w else writeSidecar c w total tip)
      | none =>
        match scanChain c 0 genesisHash complete with
        | .error e => (.error e, w)
        | .ok entries =>
          let tip := tipHash genesisHash entries
          (.ok ⟨entries.length, true, entries.length, tip⟩,
            writeSidecar c (setTip w h (entries.length, tip)) entries.length tip)

structure RepairReport where
  status : String
  droppedBytes : Nat
  prefixEntries : Nat := 0
  prefixSha256 : String := ""
  deriving DecidableEq, Repr

/-- `repair_locked`: only a torn tail behind a prefix that verifies is cut off. -/
def repairTornTail (w : World) (h : HandleId) (actor at_ : String) (key : Option Bytes)
    (dryRun : Bool) : Except LedgerError RepairReport × World :=
  match readTail c w.file with
  | .error e => (.error e, w)
  | .ok (_, completeLen) =>
    if completeLen < w.raw.length then
      let complete := w.raw.take completeLen
      match scanChain c 0 genesisHash complete with
      | .error _ => (.error (.unavailable .notATornTail), w)
      | .ok entries =>
        let dropped := w.raw.length - completeLen
        let prefixSha := c.sha256 complete
        if dryRun then (.ok ⟨"dry_run", dropped, entries.length, prefixSha⟩, w)
        else
          let w := setTip { w with file := some complete } h
            (entries.length, tipHash genesisHash entries)
          let args : AppendArgs :=
            { actor, action := .ledgerRepaired, target := "ledger:" ++ w.path, at_, key
              evidence := [("dropped_bytes", .int dropped), ("prefix_sha256", .str prefixSha),
                ("prefix_entries", .int entries.length), ("reason", .str "torn_tail")] }
          match appendLocked c w h args none with
          | (.error e, w) => (.error e, w)
          | (.ok _, w) => (.ok ⟨"repaired", dropped, entries.length, prefixSha⟩, w)
    else
      match verify c w h true with
      | (.error _, w) => (.error (.unavailable .notATornTail), w)
      | (.ok _, w) => (.ok ⟨"already_clean", 0, 0, ""⟩, w)

inductive Label
  | append (h : HandleId) (args : AppendArgs) (fault : Option Fault)
  | verify (h : HandleId) (full : Bool)
  | repair (h : HandleId) (actor at_ : String) (key : Option Bytes) (dryRun : Bool)
  /-- someone else writes or removes the ledger file -/
  | edit (file : Option Bytes)

def step (w : World) : Label → World
  | .append h args fault => (append c w h args fault).2
  | .verify h full => (verify c w h full).2
  | .repair h actor at_ key dryRun => (repairTornTail c w h actor at_ key dryRun).2
  | .edit file => { w with file }

def system : System World Label := ⟨fun w l => some (step c w l)⟩

/-- Fresh handles on whatever file there is; no sidecar has been written yet. -/
def start (path : String) (file : Option Bytes) : World :=
  { path, file, sidecar := none, tip := fun _ => none }

end Recertia.Ledger
