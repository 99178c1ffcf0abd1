import Mathlib.Data.List.Chain
import Recertia.Lib.JsonText
import Recertia.Receipts.Close

/-! Which of the recorded receipts are a chain, over every run of closes and crashes. -/
namespace Recertia.Receipts

open Json
open Lines (Bytes)
open Ledger (AppendArgs LedgerEntry)

def field (body : Dict) (key : String) : Option Value :=
  (body.find? fun item => item.1 = key).map fun item => item.2

/-- A body follows another: the next number, and the digest of the one before. -/
structure Follows (a b : Dict) : Prop where
  seq : ∃ n : ℕ, field a "seq" = some (.int n) ∧ field b "seq" = some (.int (n + 1 : ℕ))
  prev : field b "prev_receipt_hash" = field a "receipt_hash"

def Linked (bodies : List Dict) : Prop := bodies.IsChain Follows

/-- The receipts of the ledger, without the signatures of their entries. -/
def Plane.ledgerBodies (p : Plane) : List Dict :=
  (p.ledger.filter fun e => e.action = .closeReceipt).map fun e => Ledger.withoutSig e.evidence

def Plane.receiptBodies (p : Plane) : List Dict := p.receipts.map StoreReceipt.modelDump

variable (c : Ledger.Codec)

def Hashed (bodies : List Dict) : Prop :=
  ∀ body ∈ bodies, field body "receipt_hash" = some (.str (bodyHash c body))

/-- The receipts of both files are chains of bodies that carry their own digests. -/
structure Chained (p : Plane) : Prop where
  ledgerLinked : Linked p.ledgerBodies
  receiptsLinked : Linked p.receiptBodies
  ledgerHashed : Hashed c p.ledgerBodies
  receiptsHashed : Hashed c p.receiptBodies

/-- A genesis close needs room on the disk. -/
def accepts (q : Request) : Bool :=
  !q.genesis || q.freeDisk.any fun free => 2 * treeSizeBytes q.tree ≤ free

/-- The close reaches the ledger. -/
def Call.records : Call → Bool
  | .close q stop => accepts q && stop != .beforeLedger
  | .append _ _ => false

/-- The close stops between the two appends. -/
def Call.cut : Call → Bool
  | .close q stop => accepts q && stop == .beforeReceipts
  | .append _ _ => false

def Call.completes : Call → Bool
  | .close q stop => accepts q && stop == .never
  | .append _ _ => false

/-- What a close builds behind the receipts of the index. -/
structure Built (receipts : List StoreReceipt) (r : StoreReceipt) : Prop where
  seq : r.seq = (receipts.getLast?.map fun last => last.seq + 1).getD 0
  prev : r.prevReceiptHash = (receipts.getLast?.map (·.receiptHash)).getD genesisReceiptHash
  hash : r.receiptHash = receiptHash c r
  unfilled : r.ledgerSeq = none

theorem hashed_body (r : StoreReceipt) :
    r.modelDump.filter (fun item => item.1 ≠ "receipt_hash") =
      [("receipt_id", .str r.receiptId), ("seq", .int r.seq),
        ("prev_receipt_hash", .str r.prevReceiptHash), ("closed_by", .str r.closedBy.literal),
        ("genesis", .bool r.genesis), ("reviewed_git", nullable .str r.reviewedGit),
        ("fold_digest", nullable .str r.foldDigest), ("residue_cid", nullable .str r.residueCid),
        ("residue_manifest", .list (r.residueManifest.map ResidueManifestEntry.dump)),
        ("compression_moves", .list (r.compressionMoves.map CompressionMove.dump)),
        ("validity_frontier", nullable ValidityFrontier.dump r.validityFrontier),
        ("ledger_seq", nullable (fun n : ℕ => .int n) r.ledgerSeq), ("at", .str r.at_)] := rfl

/-- The digest is over everything but itself. -/
theorem receiptHash_update (r : StoreReceipt) (hash : String) :
    receiptHash c { r with receiptHash := hash } = receiptHash c r := by
  rw [receiptHash, receiptHash, bodyHash, bodyHash, hashed_body, hashed_body]

theorem buildCloseReceipt_accepted {q : Request} (h : accepts q = true)
    (receipts : List StoreReceipt) :
    ∃ r, buildCloseReceipt c receipts q = .ok r ∧ Built c receipts r := by
  cases hgenesis : q.genesis with
  | false =>
    refine ⟨_, by simp only [buildCloseReceipt, hgenesis, Bool.false_eq_true, if_false]; rfl, ?_⟩
    exact ⟨rfl, rfl, (receiptHash_update c _ _).symm, rfl⟩
  | true =>
    have hdisk : assertReceiptDisk q = .ok () := by
      rw [accepts, hgenesis, Bool.not_true, Bool.false_or] at h
      unfold assertReceiptDisk
      cases hfree : q.freeDisk with
      | none =>
        rw [hfree] at h
        cases h
      | some free =>
        rw [hfree] at h
        exact if_neg (Nat.not_lt.mpr (of_decide_eq_true h))
    refine ⟨_, by simp only [buildCloseReceipt, hgenesis, if_true, hdisk]; rfl, ?_⟩
    exact ⟨rfl, rfl, (receiptHash_update c _ _).symm, rfl⟩

theorem buildCloseReceipt_refused {q : Request} (h : accepts q = false)
    (receipts : List StoreReceipt) : ∃ e, buildCloseReceipt c receipts q = .error e := by
  rw [accepts, Bool.or_eq_false_iff, Bool.not_eq_false'] at h
  obtain ⟨hgenesis, hdisk⟩ := h
  cases hfree : q.freeDisk with
  | none =>
    refine ⟨.cannotMeasureDisk, ?_⟩
    simp only [buildCloseReceipt, hgenesis, if_true, assertReceiptDisk, hfree]
    rfl
  | some free =>
    rw [hfree] at hdisk
    have hlow : free < 2 * treeSizeBytes q.tree := Nat.not_le.mp (of_decide_eq_false hdisk)
    refine ⟨.freeDiskBelow free (treeSizeBytes q.tree), ?_⟩
    simp only [buildCloseReceipt, hgenesis, if_true, assertReceiptDisk, hfree, if_pos hlow]
    rfl

theorem isJson_nullable {α : Type} {encode : α → Value} (h : ∀ a, (encode a).isJson = true)
    (o : Option α) : (nullable encode o).isJson = true := by
  cases o with
  | none => rfl
  | some a => exact h a

theorem isJson_modelDump (r : StoreReceipt) : isJsonDict r.modelDump = true := by
  have hstr : ∀ s : String, (Value.str s).isJson = true := fun _ => rfl
  have hmanifest : ∀ v ∈ r.residueManifest.map ResidueManifestEntry.dump, v.isJson = true := by
    intro v hv
    obtain ⟨e, -, rfl⟩ := List.mem_map.mp hv
    rfl
  have hmoves : ∀ v ∈ r.compressionMoves.map CompressionMove.dump, v.isJson = true := by
    intro v hv
    obtain ⟨m, -, rfl⟩ := List.mem_map.mp hv
    simp only [CompressionMove.dump, Value.isJson, isJsonDict, isJson_nullable hstr, Bool.and_true]
  have hfrontier : ∀ v : ValidityFrontier, v.dump.isJson = true := by
    intro v
    simp only [ValidityFrontier.dump, Value.isJson, isJsonDict, isJson_nullable hstr,
      Bool.and_true]
  simp only [StoreReceipt.modelDump, isJsonDict, Value.isJson, isJson_nullable hstr,
    isJson_nullable hfrontier, isJson_nullable (fun n : ℕ => show (Value.int n).isJson = true from rfl),
    (isJsonList_iff _).mpr hmanifest, (isJsonList_iff _).mpr hmoves, Bool.and_true]

/-- A close always has an entry for the ledger. -/
theorem appendEntry_close (ledger : List LedgerEntry) (q : Request) (r : StoreReceipt) :
    ∃ entry, appendEntry c ledger (closeArgs q r) = some entry ∧ entry.action = .closeReceipt ∧
      Ledger.withoutSig entry.evidence = r.modelDump ∧ entry.seq = ledger.length := by
  have hdumpable : dumpableDict (closeArgs q r).evidence = true :=
    dumpableDict_of_isJson (isJson_modelDump r)
  obtain ⟨entry, hentry⟩ := Ledger.writtenEntry_of_dumpable (c := c) hdumpable ledger.length
    (Ledger.tipHash Ledger.genesisHash ledger)
  refine ⟨entry, hentry, ?_⟩
  simp only [Ledger.writtenEntry, Option.bind_eq_bind, Option.bind_eq_some_iff, Option.pure_def,
    Option.some.injEq] at hentry
  obtain ⟨draft, hdraft, hash, -, rfl⟩ := hentry
  obtain ⟨evidence, rfl, hevidence, -⟩ := Ledger.beforeAppend_some hdraft
  refine ⟨rfl, hevidence, rfl⟩

theorem ledgerBodies_append (p : Plane) (entries : List LedgerEntry) (receipts : List StoreReceipt) :
    Plane.ledgerBodies ⟨p.ledger ++ entries, receipts⟩ = p.ledgerBodies ++
      Plane.ledgerBodies ⟨entries, []⟩ := by
  simp only [Plane.ledgerBodies, List.filter_append, List.map_append]

/-- What one call adds: nothing, or a receipt in the ledger, which the index gets too unless the
close is cut. -/
theorem step_cases (p : Plane) (call : Call) :
    (call.records = false ∧ (step c p call).ledgerBodies = p.ledgerBodies ∧
      (step c p call).receipts = p.receipts) ∨
    (∃ r, Built c p.receipts r ∧ call.records = true ∧
      (step c p call).ledgerBodies = p.ledgerBodies ++ [r.modelDump] ∧
      (call.cut = true ∧ (step c p call).receipts = p.receipts ∨
       call.cut = false ∧ ∃ n, (step c p call).receipts =
         p.receipts ++ [{ r with ledgerSeq := some n }])) := by
  cases call with
  | append args other =>
    refine Or.inl ⟨rfl, ?_, rfl⟩
    have hother : Plane.ledgerBodies ⟨(appendEntry c p.ledger args).toList, []⟩ = [] := by
      cases hentry : appendEntry c p.ledger args with
      | none => rfl
      | some entry =>
        simp only [appendEntry, Ledger.writtenEntry, Option.bind_eq_bind, Option.bind_eq_some_iff,
          Option.pure_def, Option.some.injEq] at hentry
        obtain ⟨draft, hdraft, hash, -, rfl⟩ := hentry
        obtain ⟨evidence, rfl, -⟩ := Ledger.beforeAppend_some hdraft
        simp only [Plane.ledgerBodies, Option.toList_some, List.filter_cons, other, decide_false,
          Bool.false_eq_true, if_false, List.filter_nil, List.map_nil]
    have happend := ledgerBodies_append p (appendEntry c p.ledger args).toList p.receipts
    rw [hother, List.append_nil] at happend
    exact happend
  | close q stop =>
    cases haccepts : accepts q with
    | false =>
      obtain ⟨e, he⟩ := buildCloseReceipt_refused c haccepts p.receipts
      refine Or.inl ⟨by rw [Call.records, haccepts, Bool.false_and], ?_, ?_⟩ <;>
        simp only [step, he]
    | true =>
      obtain ⟨r, hr, hbuilt⟩ := buildCloseReceipt_accepted c haccepts p.receipts
      obtain ⟨entry, hentry, haction, hevidence, -⟩ := appendEntry_close c p.ledger q r
      have hone : Plane.ledgerBodies ⟨[entry], []⟩ = [r.modelDump] := by
        simp only [Plane.ledgerBodies, List.filter_cons, haction, decide_true, if_true,
          List.filter_nil, List.map_cons, List.map_nil, hevidence]
      have happend : ∀ receipts, Plane.ledgerBodies ⟨p.ledger ++ [entry], receipts⟩ =
          p.ledgerBodies ++ [r.modelDump] := by
        intro receipts
        rw [ledgerBodies_append, hone]
      cases stop with
      | beforeLedger =>
        refine Or.inl ⟨by rw [Call.records, haccepts]; rfl, ?_, ?_⟩ <;>
          simp only [step, hr, closeReceipt, if_true]
      | beforeReceipts =>
        refine Or.inr ⟨r, hbuilt, by rw [Call.records, haccepts]; rfl, ?_,
          Or.inl ⟨by rw [Call.cut, haccepts]; rfl, ?_⟩⟩
        · simp only [step, hr, closeReceipt, hentry, reduceCtorEq, if_false, if_true, happend]
        · simp only [step, hr, closeReceipt, hentry, reduceCtorEq, if_false, if_true]
      | never =>
        refine Or.inr ⟨r, hbuilt, by rw [Call.records, haccepts]; rfl, ?_,
          Or.inr ⟨by rw [Call.cut, haccepts]; rfl, entry.seq, ?_⟩⟩
        · simp only [step, hr, closeReceipt, hentry, reduceCtorEq, if_false, happend]
        · simp only [step, hr, closeReceipt, hentry, reduceCtorEq, if_false, hbuilt.unfilled,
            if_true]

/-- The digest over a body with its ledger position is another one. -/
theorem receiptHash_filled (hsha : Function.Injective c.sha256) {r : StoreReceipt}
    (hr : r.ledgerSeq = none) (n : ℕ) :
    receiptHash c { r with ledgerSeq := some n } ≠ receiptHash c r := by
  intro heq
  have hjson : ∀ r : StoreReceipt,
      isJsonDict (r.modelDump.filter fun item => item.1 ≠ "receipt_hash") = true := by
    intro r
    rw [isJsonDict_iff]
    exact fun item hitem =>
      (isJsonDict_iff _).mp (isJson_modelDump r) item (List.mem_of_mem_filter hitem)
  have hperm := dumps_dict_inj (balanced_of_isJson (hjson { r with ledgerSeq := some n }))
    (balanced_of_isJson (hjson r)) (utf8_inj (hsha heq))
  have hfilled : ("ledger_seq", (Value.int n).dumps) ∈
      dumpsDict (r.modelDump.filter fun item => item.1 ≠ "receipt_hash") := by
    refine hperm.mem_iff.mp (mem_dumpsDict.mpr ⟨.int n, ?_, rfl⟩)
    rw [hashed_body]
    simp only [nullable, List.mem_cons, Prod.mk.injEq, true_or, or_true]
  obtain ⟨v, hv, htext⟩ := mem_dumpsDict.mp hfilled
  rw [hashed_body, hr] at hv
  simp only [nullable, List.mem_cons, Prod.mk.injEq, String.reduceEq, false_and, false_or,
    true_and, List.not_mem_nil, or_false] at hv
  rw [hv] at htext
  exact dumps_int_ne_null n htext.symm

/-- What the next receipt takes from the one before. -/
structure StoreReceipt.Next (a b : StoreReceipt) : Prop where
  seq : b.seq = a.seq + 1
  prev : b.prevReceiptHash = a.receiptHash

theorem follows_iff (a b : StoreReceipt) : Follows a.modelDump b.modelDump ↔ a.Next b := by
  have hseq : ∀ r : StoreReceipt, field r.modelDump "seq" = some (.int r.seq) := fun _ => rfl
  have hprev : field b.modelDump "prev_receipt_hash" = some (.str b.prevReceiptHash) := rfl
  have hhash : field a.modelDump "receipt_hash" = some (.str a.receiptHash) := rfl
  constructor
  · rintro ⟨⟨n, ha, hb⟩, hlink⟩
    rw [hseq, Option.some.injEq, Value.int.injEq, Int.natCast_inj] at ha hb
    rw [hprev, hhash, Option.some.injEq, Value.str.injEq] at hlink
    exact ⟨by rw [ha, hb], hlink⟩
  · rintro ⟨ha, hlink⟩
    exact ⟨⟨a.seq, hseq a, by rw [hseq, ha]⟩, by rw [hprev, hhash, hlink]⟩

theorem linked_iff (receipts : List StoreReceipt) :
    Linked (receipts.map StoreReceipt.modelDump) ↔ receipts.IsChain StoreReceipt.Next := by
  rw [Linked, List.isChain_map]
  exact ⟨fun h => h.imp fun a b => (follows_iff a b).mp, fun h => h.imp fun a b => (follows_iff a b).mpr⟩

theorem hashed_iff (receipts : List StoreReceipt) :
    Hashed c (receipts.map StoreReceipt.modelDump) ↔
      ∀ r ∈ receipts, r.receiptHash = receiptHash c r := by
  have hhash : ∀ r : StoreReceipt, field r.modelDump "receipt_hash" = some (.str r.receiptHash) :=
    fun _ => rfl
  rw [Hashed, List.forall_mem_map]
  simp only [hhash, Option.some.injEq, Value.str.injEq, receiptHash]

/-- The part of a receipt that links it. -/
def StoreReceipt.link (r : StoreReceipt) : ℕ × String := (r.seq, r.receiptHash)

theorem Built.next {receipts others : List StoreReceipt} {r : StoreReceipt}
    (h : Built c receipts r)
    (hsame : others.map StoreReceipt.link = receipts.map StoreReceipt.link) :
    ∀ last ∈ others.getLast?, last.Next r := by
  intro last hlast
  have hlink : (receipts.getLast?.map StoreReceipt.link) = some last.link := by
    rw [← List.getLast?_map, ← hsame, List.getLast?_map, Option.mem_def.mp hlast]
    rfl
  obtain ⟨a, ha, halink⟩ := Option.map_eq_some_iff.mp hlink
  obtain ⟨hseq, hhash⟩ := Prod.mk.inj halink
  have hbseq := h.seq
  have hbprev := h.prev
  rw [ha] at hbseq hbprev
  exact ⟨by rw [hbseq, ← hseq]; rfl, by rw [hbprev, ← hhash]; rfl⟩

/-- No close that reaches the ledger comes after one that was cut. -/
def CutLast (calls : List Call) : Prop :=
  calls.Pairwise fun a b => a.cut = true → b.records = false

theorem cutLast_concat (calls : List Call) (call : Call) :
    CutLast (calls ++ [call]) ↔
      CutLast calls ∧ (call.records = true → ∀ a ∈ calls, a.cut = false) := by
  have hone : CutLast [call] := List.pairwise_singleton _ _
  rw [CutLast, List.pairwise_append, ← CutLast, ← CutLast]
  simp only [hone, true_and, List.mem_singleton, forall_eq]
  constructor
  · rintro ⟨hcalls, hcut⟩
    refine ⟨hcalls, fun hrecords a ha => ?_⟩
    by_contra hacut
    have hno := hcut a ha (Bool.not_eq_false _ ▸ hacut)
    rw [hrecords] at hno
    cases hno
  · rintro ⟨hcalls, hcut⟩
    refine ⟨hcalls, fun a ha hacut => ?_⟩
    cases hrecords : call.records with
    | false => rfl
    | true =>
      rw [hcut hrecords a ha] at hacut
      cases hacut

/-- What the two files hold after some calls. -/
structure Inv (calls : List Call) (p : Plane) (recorded : List StoreReceipt) : Prop where
  bodies : p.ledgerBodies = recorded.map StoreReceipt.modelDump
  hashed : ∀ r ∈ recorded, r.receiptHash = receiptHash c r
  filled : ∀ r ∈ p.receipts, ∃ draft n, draft.ledgerSeq = none ∧
    r = { draft with ledgerSeq := some n } ∧ draft.receiptHash = receiptHash c draft
  indexed : p.receipts = [] ↔ ∀ call ∈ calls, call.records = true → call.cut = true
  linked : p.receipts.IsChain StoreReceipt.Next
  whole : (∀ call ∈ calls, call.cut = false) →
    recorded.map StoreReceipt.link = p.receipts.map StoreReceipt.link
  ahead : CutLast calls → (∃ call ∈ calls, call.cut = true) → ∃ last, recorded.getLast? = some last ∧
    last.seq = (p.receipts.getLast?.map fun r => r.seq + 1).getD 0
  cutLast : recorded.IsChain StoreReceipt.Next ↔ CutLast calls

theorem cut_of_not_records {call : Call} (h : call.records = false) : call.cut = false := by
  cases call with
  | append args other => rfl
  | close q stop =>
    cases stop with
    | beforeReceipts =>
      rw [Call.records] at h
      rw [Call.cut]
      exact h
    | _ => exact Bool.and_false _

theorem forall_concat {P : Call → Prop} (calls : List Call) (call : Call) :
    (∀ a ∈ calls ++ [call], P a) ↔ (∀ a ∈ calls, P a) ∧ P call := by
  rw [List.forall_mem_append, List.forall_mem_singleton]

/-- A call that reaches neither file. -/
theorem Inv.quiet {calls : List Call} {p p' : Plane} {recorded : List StoreReceipt} {call : Call}
    (h : Inv c calls p recorded) (hrecords : call.records = false)
    (hbodies : p'.ledgerBodies = p.ledgerBodies) (hreceipts : p'.receipts = p.receipts) :
    Inv c (calls ++ [call]) p' recorded := by
  have hcut := cut_of_not_records hrecords
  have hlast : CutLast (calls ++ [call]) ↔ CutLast calls := by
    rw [cutLast_concat, hrecords]
    simp only [Bool.false_eq_true, false_implies, and_true]
  refine ⟨hbodies.trans h.bodies, h.hashed, ?_, ?_, ?_, ?_, ?_, ?_⟩
  · rw [hreceipts]
    exact h.filled
  · rw [hreceipts, forall_concat, hrecords, h.indexed]
    simp only [Bool.false_eq_true, false_implies, and_true]
  · rw [hreceipts]
    exact h.linked
  · intro hnone
    rw [hreceipts]
    exact h.whole fun a ha => hnone a (List.mem_append_left _ ha)
  · rintro hcutLast ⟨a, ha, hacut⟩
    rw [hreceipts]
    refine h.ahead (hlast.mp hcutLast) ⟨a, ?_, hacut⟩
    rcases List.mem_append.mp ha with ha | ha
    · exact ha
    · rw [List.mem_singleton.mp ha, hcut] at hacut
      cases hacut
  · rw [hlast]
    exact h.cutLast

/-- The ledger stays linked with one more receipt exactly if no close before it was cut. -/
theorem Inv.cutLast_append {calls : List Call} {p : Plane} {recorded : List StoreReceipt}
    {call : Call} {r : StoreReceipt} (h : Inv c calls p recorded) (hrecords : call.records = true)
    (hbuilt : Built c p.receipts r) :
    (recorded ++ [r]).IsChain StoreReceipt.Next ↔ CutLast (calls ++ [call]) := by
  rw [cutLast_concat, List.isChain_append, h.cutLast]
  simp only [hrecords, forall_const, List.isChain_singleton, true_and, List.head?_cons,
    Option.mem_def, Option.some.injEq, forall_eq']
  refine and_congr_right fun hcutLast => ⟨fun hnext a ha => ?_, fun hnone => ?_⟩
  · by_contra hcut
    have hacut : a.cut = true := Bool.not_eq_false _ ▸ hcut
    obtain ⟨last, hlast, hseq⟩ := h.ahead hcutLast ⟨a, ha, hacut⟩
    have hstep := (hnext last hlast).seq
    rw [hbuilt.seq, ← hseq] at hstep
    omega
  · exact hbuilt.next c (h.whole hnone)

/-- A close that reaches the ledger, and the index unless it is cut. -/
theorem Inv.recorded {calls : List Call} {p p' : Plane} {recorded : List StoreReceipt} {call : Call}
    {r : StoreReceipt} (h : Inv c calls p recorded) (hrecords : call.records = true)
    (hbuilt : Built c p.receipts r) (hbodies : p'.ledgerBodies = p.ledgerBodies ++ [r.modelDump])
    (hreceipts : call.cut = true ∧ p'.receipts = p.receipts ∨
      call.cut = false ∧ ∃ n, p'.receipts = p.receipts ++ [{ r with ledgerSeq := some n }]) :
    Inv c (calls ++ [call]) p' (recorded ++ [r]) := by
  have hledger : p'.ledgerBodies = (recorded ++ [r]).map StoreReceipt.modelDump := by
    rw [hbodies, h.bodies, List.map_append]
    rfl
  have hhashed : ∀ s ∈ recorded ++ [r], s.receiptHash = receiptHash c s := by
    rw [List.forall_mem_append, List.forall_mem_singleton]
    exact ⟨h.hashed, hbuilt.hash⟩
  have hchain := h.cutLast_append c hrecords hbuilt
  rcases hreceipts with ⟨hcut, hreceipts⟩ | ⟨hcut, n, hreceipts⟩
  · refine ⟨hledger, hhashed, ?_, ?_, ?_, ?_, ?_, hchain⟩
    · rw [hreceipts]
      exact h.filled
    · rw [hreceipts, forall_concat, hcut, h.indexed]
      simp only [implies_true, and_true]
    · rw [hreceipts]
      exact h.linked
    · intro hnone
      rw [hnone call (List.mem_append_right _ List.mem_cons_self)] at hcut
      cases hcut
    · intro _ _
      rw [hreceipts]
      exact ⟨r, List.getLast?_concat, hbuilt.seq⟩
  · refine ⟨hledger, hhashed, ?_, ?_, ?_, ?_, ?_, hchain⟩
    · rw [hreceipts, List.forall_mem_append, List.forall_mem_singleton]
      exact ⟨h.filled, r, n, hbuilt.unfilled, rfl, hbuilt.hash⟩
    · rw [hreceipts, forall_concat, hrecords, hcut]
      simp only [List.append_eq_nil_iff, List.cons_ne_nil, and_false, Bool.false_eq_true,
        forall_const]
    · rw [hreceipts, List.isChain_append]
      refine ⟨h.linked, List.isChain_singleton _, fun last hlast next hnext => ?_⟩
      obtain rfl := Option.some.inj hnext
      have hnext := hbuilt.next c rfl last hlast
      exact ⟨hnext.seq, hnext.prev⟩
    · intro hnone
      rw [hreceipts, List.map_append, List.map_append,
        h.whole fun a ha => hnone a (List.mem_append_left _ ha)]
      rfl
    · rintro hcutLast ⟨a, ha, hacut⟩
      have hnone := ((cutLast_concat calls call).mp hcutLast).2 hrecords
      rcases List.mem_append.mp ha with ha | ha
      · rw [hnone a ha] at hacut
        cases hacut
      · rw [List.mem_singleton.mp ha, hcut] at hacut
        cases hacut

theorem inv_start : Inv c [] ⟨[], []⟩ [] := by
  refine ⟨rfl, ?_, ?_, ?_, List.isChain_nil, fun _ => rfl, ?_, ?_⟩
  · exact fun r hr => absurd hr List.not_mem_nil
  · exact fun r hr => absurd hr List.not_mem_nil
  · exact ⟨fun _ call hcall => absurd hcall List.not_mem_nil, fun _ => rfl⟩
  · rintro - ⟨a, ha, -⟩
    exact absurd ha List.not_mem_nil
  · exact ⟨fun _ => List.Pairwise.nil, fun _ => List.isChain_nil⟩

theorem inv_run (calls : List Call) : ∃ recorded, Inv c calls (run c calls) recorded := by
  induction calls using List.reverseRecOn with
  | nil => exact ⟨[], inv_start c⟩
  | append_singleton calls call ih =>
    obtain ⟨recorded, h⟩ := ih
    have hrun : run c (calls ++ [call]) = step c (run c calls) call := List.foldl_append
    rw [hrun]
    rcases step_cases c (run c calls) call with ⟨hrecords, hbodies, hreceipts⟩ |
      ⟨r, hbuilt, hrecords, hbodies, hreceipts⟩
    · exact ⟨recorded, h.quiet c hrecords hbodies hreceipts⟩
    · exact ⟨recorded ++ [r], h.recorded c hrecords hbuilt hbodies hreceipts⟩

/-- The index is always linked. -/
theorem receipts_linked (calls : List Call) : Linked (run c calls).receiptBodies := by
  obtain ⟨recorded, h⟩ := inv_run c calls
  exact (linked_iff _).mpr h.linked

/-- The receipts of the ledger always carry their own digests. -/
theorem ledger_hashed (calls : List Call) : Hashed c (run c calls).ledgerBodies := by
  obtain ⟨recorded, h⟩ := inv_run c calls
  rw [h.bodies]
  exact (hashed_iff c _).mpr h.hashed

/-- The ledger is linked exactly if nothing was recorded behind a cut close. -/
theorem ledger_linked_iff (calls : List Call) :
    Linked (run c calls).ledgerBodies ↔ CutLast calls := by
  obtain ⟨recorded, h⟩ := inv_run c calls
  rw [h.bodies, linked_iff]
  exact h.cutLast

/-- No receipt of the index carries its own digest. -/
theorem receipts_hashed_iff (hsha : Function.Injective c.sha256) (calls : List Call) :
    Hashed c (run c calls).receiptBodies ↔
      ∀ call ∈ calls, call.records = true → call.cut = true := by
  obtain ⟨recorded, h⟩ := inv_run c calls
  rw [← h.indexed]
  constructor
  · intro hhashed
    by_contra hne
    obtain ⟨r, hr⟩ := List.exists_mem_of_ne_nil _ hne
    obtain ⟨draft, n, hunfilled, rfl, hdraft⟩ := h.filled r hr
    have hown := (hashed_iff c _).mp hhashed _ hr
    exact receiptHash_filled c hsha hunfilled n (hown.symm.trans hdraft)
  · intro hnil body hbody
    rw [Plane.receiptBodies, hnil] at hbody
    cases hbody

theorem cutLast_iff_of_cut {calls : List Call}
    (hcut : ∀ call ∈ calls, call.records = true → call.cut = true) :
    CutLast calls ↔ calls.countP Call.records ≤ 1 := by
  induction calls with
  | nil => exact ⟨fun _ => Nat.zero_le 1, fun _ => List.Pairwise.nil⟩
  | cons call calls ih =>
    obtain ⟨hcall, hrest⟩ := List.forall_mem_cons.mp hcut
    rw [CutLast, List.pairwise_cons, ← CutLast, ih hrest, List.countP_cons]
    cases hrecords : call.records with
    | false =>
      have hno := cut_of_not_records hrecords
      simp only [hno, Bool.false_eq_true, false_implies, implies_true, true_and, if_false,
        Nat.add_zero]
    | true =>
      have hzero : (∀ b ∈ calls, b.records = false) ↔ calls.countP Call.records = 0 := by
        rw [List.countP_eq_zero]
        simp only [Bool.not_eq_true]
      simp only [hcall hrecords, forall_const, hzero, if_true]
      omega

/-- The receipts are chained in both files exactly if no close completes and at most one reaches
the ledger. -/
theorem chained_iff (hsha : Function.Injective c.sha256) (calls : List Call) :
    Chained c (run c calls) ↔ (∀ call ∈ calls, call.completes = false) ∧
      calls.countP Call.records ≤ 1 := by
  have hcompletes : (∀ call ∈ calls, call.completes = false) ↔
      ∀ call ∈ calls, call.records = true → call.cut = true := by
    refine forall₂_congr fun call _ => ?_
    cases call with
    | append args other => simp only [Call.completes, Call.records, Bool.false_eq_true, false_implies]
    | close q stop =>
      simp only [Call.completes, Call.records, Call.cut]
      cases accepts q <;> cases stop <;> decide
  rw [hcompletes]
  constructor
  · intro h
    have hcut := (receipts_hashed_iff c hsha calls).mp h.receiptsHashed
    exact ⟨hcut, (cutLast_iff_of_cut hcut).mp ((ledger_linked_iff c calls).mp h.ledgerLinked)⟩
  · rintro ⟨hcut, hone⟩
    exact ⟨(ledger_linked_iff c calls).mpr ((cutLast_iff_of_cut hcut).mpr hone),
      receipts_linked c calls, ledger_hashed c calls, (receipts_hashed_iff c hsha calls).mpr hcut⟩

/-- An operator's close over an empty tree. -/
def operatorClose : Request where
  genesis := false
  actor := "operator"
  tree := []
  freeDisk := none
  reviewedGit := none
  now := "2026-09-23T00:00:00Z"
  ledgerNow := "2026-09-23T00:00:01Z"
  key := none

theorem chained_one_cut_close : Function.Injective Ledger.spellCodec.sha256 ∧
    Chained Ledger.spellCodec (run Ledger.spellCodec [.close operatorClose .beforeReceipts]) :=
  ⟨Ledger.spell_injective, (chained_iff Ledger.spellCodec Ledger.spell_injective _).mpr
    ⟨by decide, by decide⟩⟩

/-- A close that was cut leaves its number to the next one. -/
theorem not_chained_cut_twice : ¬ Chained Ledger.spellCodec (run Ledger.spellCodec
    [.close operatorClose .beforeReceipts, .close operatorClose .beforeReceipts]) := by
  intro h
  have hlinked := (ledger_linked_iff Ledger.spellCodec _).mp h.ledgerLinked
  rw [CutLast, List.pairwise_cons] at hlinked
  exact absurd (hlinked.1 _ List.mem_cons_self rfl) (by decide)

end Recertia.Receipts
