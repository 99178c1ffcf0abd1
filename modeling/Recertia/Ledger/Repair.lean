import Recertia.Ledger.Incremental

/-! Repair of a torn tail: what is cut off, what is kept, and when `read_tail` stands in the way. -/
namespace Recertia.Ledger
open Lines Json Transition
variable {c : Codec}

/-- The bytes in which `read_tail` looks for the last complete line. -/
def tailData (raw : Bytes) : Bytes := raw.drop (tailStart raw raw.length raw.length tailWindow)

/-- The line that `read_tail` picks parses. A window that starts inside of a line picks the end
of it when all further lines of the window are blank. -/
def TailParses (c : Codec) (raw : Bytes) : Prop :=
  ∀ line, tailLine (tailData raw) = some line → (c.modelValidateJson line).isSome = true

/-- What `repair_locked` writes to `quarantine/<stamp>/torn-tail.bin`. -/
def quarantine (c : Codec) (w : World) (dryRun : Bool) : Option Bytes :=
  match readTail c w.file with
  | .error _ => none
  | .ok (_, completeLen) =>
    if completeLen < w.raw.length then
      match scanChain c 0 genesisHash (w.raw.take completeLen) with
      | .error _ => none
      | .ok _ => if dryRun then none else some (w.raw.drop completeLen)
    else none

/-- The window either starts at the start of the file or has the last two newlines in it. -/
theorem rest_tailData (raw : Bytes) (h : newline ∈ tailData raw) :
    rest (tailData raw) = rest raw := by
  obtain ⟨p, s, hdata, hs⟩ := exists_last_newline h
  have hraw : raw = (raw.take (tailStart raw raw.length raw.length tailWindow) ++ p) ++
      newline :: s := by
    rw [List.append_assoc, ← hdata, tailData, List.take_append_drop]
  rw [hdata, rest_append hs, hraw, rest_append hs]

theorem rest_of_not_mem_tailData {raw : Bytes} (h : newline ∉ tailData raw) : rest raw = raw := by
  rcases tailStart_spec raw raw.length raw.length tailWindow with hstart | hcount
  · apply rest_of_not_mem
    rwa [tailData, hstart, List.drop_zero] at h
  · have hpos : 0 < (tailData raw).count newline := Nat.lt_of_lt_of_le (by decide) hcount
    exact absurd (List.count_pos_iff.mp hpos) h

/-- `read_tail` measures the complete lines, wherever its window starts. -/
theorem readTail_len {file : Option Bytes} {last : Option LedgerEntry} {n : ℕ}
    (h : readTail c file = .ok (last, n)) :
    n = (file.getD []).length - (rest (file.getD [])).length := by
  unfold readTail at h
  dsimp only at h
  rw [← tailData] at h
  split at h
  · rename_i hmem
    rw [rest_tailData _ hmem] at h
    split at h
    · cases h
      rfl
    · split at h
      · cases h
      · cases h
        rfl
  · rename_i hmem
    cases h
    rw [rest_of_not_mem_tailData hmem, Nat.sub_self]

theorem readTail_ok_iff (file : Option Bytes) :
    (∃ last n, readTail c file = .ok (last, n)) ↔ TailParses c (file.getD []) := by
  unfold readTail TailParses
  dsimp only
  rw [← tailData]
  split
  · cases hline : tailLine (tailData (file.getD [])) with
    | none => simp
    | some line => cases hparse : c.modelValidateJson line <;> simp [hparse]
  · rename_i hmem
    have hnone : tailLine (tailData (file.getD [])) = none := by
      rw [tailLine, records_of_not_mem hmem]
      rfl
    simp [hnone]

/-- What the repair of `w` appends behind the entries `es`. -/
def repairArgs (c : Codec) (w : World) (es : List LedgerEntry) (actor at_ : String)
    (key : Option Bytes) : AppendArgs :=
  repairAppend w.path actor at_ key (rest w.raw).length (c.sha256 (complete w.raw)) es.length

/-- The world after the truncation. -/
def truncated (w : World) (h : HandleId) (es : List LedgerEntry) : World :=
  setTip { w with file := some (complete w.raw) } h (es.length, tipHash genesisHash es)

/-- A repair of a torn file behind verified lines is an append to them. -/
theorem repairTornTail_torn {w : World} {es : List LedgerEntry} (h : HandleId)
    (actor at_ : String) (key : Option Bytes) (htail : TailParses c w.raw)
    (htorn : rest w.raw ≠ []) (hscan : scanChain c 0 genesisHash (complete w.raw) = .ok es) :
    repairTornTail c w h actor at_ key false =
        (match appendLocked c (truncated w h es) h (repairArgs c w es actor at_ key) none with
          | (.error e, w) => (.error e, w)
          | (.ok _, w') => (.ok ⟨"repaired", (rest w.raw).length, es.length,
              c.sha256 (complete w.raw)⟩, w')) ∧
      quarantine c w false = some (rest w.raw) := by
  obtain ⟨last, n, hread⟩ := (readTail_ok_iff w.file).mpr htail
  have hn : n = w.raw.length - (rest w.raw).length := readTail_len hread
  have hlen : w.raw.length = (complete w.raw).length + (rest w.raw).length := by
    rw [← List.length_append, complete_append_rest]
  have hpos : 0 < (rest w.raw).length := List.length_pos_iff.mpr htorn
  have hlt : n < w.raw.length := by omega
  have htake : w.raw.take n = complete w.raw := by rw [hn, complete]
  have hdrop : w.raw.drop n = rest w.raw := by
    have hsplit := List.take_append_drop n w.raw
    rw [htake] at hsplit
    exact List.append_cancel_left (hsplit.trans (complete_append_rest w.raw).symm)
  have hdropped : w.raw.length - n = (rest w.raw).length := by omega
  constructor
  · unfold repairTornTail
    rw [hread]
    dsimp only
    rw [if_pos hlt, htake, hscan, hdropped]
    rfl
  · unfold quarantine
    rw [hread]
    dsimp only
    rw [if_pos hlt, htake, hscan, hdrop]
    rfl

/-- The repair has cut off exactly the partial line, has kept it in quarantine and has left a
ledger that verifies, with its own entry at the end; a second one finds nothing to do. -/
structure Repaired (c : Codec) (w : World) (h : HandleId) (actor at_ : String)
    (key : Option Bytes) (es : List LedgerEntry) : Prop where
  report : (repairTornTail c w h actor at_ key false).1 =
    .ok ⟨"repaired", (rest w.raw).length, es.length, c.sha256 (complete w.raw)⟩
  kept : complete w.raw <+: (repairTornTail c w h actor at_ key false).2.raw
  quarantined : quarantine c w false = some (rest w.raw)
  verified : ∃ e, Verified c (repairTornTail c w h actor at_ key false).2.file (es ++ [e])
  again : ∀ h' actor' at' key' dryRun,
    let w' := (repairTornTail c w h actor at_ key false).2
    (repairTornTail c w' h' actor' at' key' dryRun).1 = .ok ⟨"already_clean", 0, 0, ""⟩ ∧
      (repairTornTail c w' h' actor' at' key' dryRun).2.file = w'.file ∧
      (repairTornTail c w' h' actor' at' key' dryRun).2.sidecar = w'.sidecar ∧
      quarantine c w' dryRun = none

/-- A torn file whose complete lines verify is repaired, and one whose complete lines do not
verify is left as it is, with an error. -/
structure RepairSafe (c : Codec) (w : World) (h : HandleId) (actor at_ : String)
    (key : Option Bytes) : Prop where
  repaired : ∀ es, rest w.raw ≠ [] → scanChain c 0 genesisHash (complete w.raw) = .ok es →
    Repaired c w h actor at_ key es
  refused : (∀ es, scanChain c 0 genesisHash (complete w.raw) ≠ .ok es) →
    (∃ e, (repairTornTail c w h actor at_ key false).1 = .error e) ∧
      (repairTornTail c w h actor at_ key false).2.file = w.file

theorem verify_file (w : World) (h : HandleId) (full : Bool) :
    (verify c w h full).2.file = w.file := by
  unfold verify
  split
  · rfl
  · split
    · rfl
    · dsimp only
      split
      · split
        · rfl
        · dsimp only
          split <;> rfl
      · split <;> rfl

/-- Lines that do not verify are never cut: not before, and not behind them. -/
theorem repair_refuses {w : World} (h : HandleId) (actor at_ : String) (key : Option Bytes)
    (hscan : ∀ es, scanChain c 0 genesisHash (complete w.raw) ≠ .ok es) :
    (∃ e, (repairTornTail c w h actor at_ key false).1 = .error e) ∧
      (repairTornTail c w h actor at_ key false).2.file = w.file := by
  unfold repairTornTail
  cases hread : readTail c w.file with
  | error e => exact ⟨⟨e, rfl⟩, rfl⟩
  | ok r =>
    obtain ⟨last, n⟩ := r
    have hn : n = w.raw.length - (rest w.raw).length := readTail_len hread
    have htake : w.raw.take n = complete w.raw := by rw [hn, complete]
    dsimp only
    rw [htake]
    split
    · cases hes : scanChain c 0 genesisHash (complete w.raw) with
      | error e => exact ⟨⟨_, rfl⟩, rfl⟩
      | ok es => exact absurd hes (hscan es)
    · have hfile := verify_file (c := c) w h true
      cases hverify : verify c w h true with
      | mk res w' =>
        rw [hverify] at hfile
        cases res with
        | error e => exact ⟨⟨_, rfl⟩, hfile⟩
        | ok rep =>
          obtain ⟨es, hv, -⟩ := (verify_full_iff w h rep).mp (congrArg Prod.fst hverify)
          have hcomplete : complete w.raw = w.raw := by
            have hterm : Terminated w.raw := hv.terminated
            have happend := complete_append_rest w.raw
            rwa [rest_of_terminated hterm, List.append_nil] at happend
          rw [hcomplete] at hscan
          exact absurd hv.chain (hscan es)

/-- On a ledger that verifies a repair has nothing to do. -/
theorem repair_clean {w : World} {es : List LedgerEntry} (hv : Verified c w.file es)
    (h : HandleId) (actor at_ : String) (key : Option Bytes) (dryRun : Bool) :
    (repairTornTail c w h actor at_ key dryRun).1 = .ok ⟨"already_clean", 0, 0, ""⟩ ∧
      (repairTornTail c w h actor at_ key dryRun).2 =
        writeSidecar c (setTip w h (es.length, tipHash genesisHash es)) es.length
          (tipHash genesisHash es) ∧
      quarantine c w dryRun = none := by
  obtain ⟨last, n, hread⟩ := hv.readable
  have hle : w.raw.length ≤ n := (readTail_complete hread).mpr hv.terminated
  have hnot : ¬ n < w.raw.length := Nat.not_lt.mpr hle
  have htake : w.raw.take n = w.raw := List.take_of_length_le hle
  have hscan : scanChain c 0 genesisHash w.raw = .ok es := hv.chain
  have hverify : verify c w h true = (.ok ⟨es.length, true, es.length, tipHash genesisHash es⟩,
      writeSidecar c (setTip w h (es.length, tipHash genesisHash es)) es.length
        (tipHash genesisHash es)) := by
    unfold verify
    rw [hread]
    dsimp only
    rw [if_neg hnot, htake, hscan]
    rfl
  unfold repairTornTail quarantine
  rw [hread]
  dsimp only
  rw [if_neg hnot, if_neg hnot, hverify]
  exact ⟨rfl, rfl, rfl⟩

theorem tipForAppend_of_verified {w : World} {h : HandleId} {es : List LedgerEntry}
    (hv : Verified c w.file es) (htip : TipRead c w h es) :
    tipForAppend c w h = .ok (es.length, tipHash genesisHash es) := by
  obtain ⟨last, n, hread⟩ := hv.readable
  have hle : w.raw.length ≤ n := (readTail_complete hread).mpr hv.terminated
  have hes : entriesFromBytes c (w.raw.take n) = .ok es := by
    rw [List.take_of_length_le hle]
    exact (scanChain_ok.mp hv.chain).1
  simp only [tipForAppend, hread, bind, Except.bind, if_neg (Nat.not_lt.mpr hle)]
  split
  · rename_i htrust
    rw [htip last n hread htrust]
    rfl
  · simp only [hes]
    rfl

theorem appendLocked_of_written {w : World} {h : HandleId} {args : AppendArgs} {seq : ℕ}
    {prev : String} {e : LedgerEntry} {line : Bytes} (htip : tipForAppend c w h = .ok (seq, prev))
    (hwritten : writtenEntry c args seq prev = some e) (hline : c.modelDumpJson e = some line) :
    ∃ w', appendLocked c w h args none = (.ok e, w') := by
  simp only [writtenEntry, Option.bind_eq_bind, Option.bind_eq_some_iff, Option.pure_def,
    Option.some.injEq] at hwritten
  obtain ⟨draft, hdraft, hash, hhash, rfl⟩ := hwritten
  unfold appendLocked
  rw [htip]
  simp only [hdraft, hhash, hline, Option.bind_eq_bind, Option.bind_some, Option.pure_def]
  exact ⟨_, rfl⟩

theorem dumpableDict_withoutSig {evidence : Dict} (h : dumpableDict evidence = true) :
    dumpableDict (withoutSig evidence) = true := by
  induction evidence with
  | nil => rfl
  | cons item items ih =>
    obtain ⟨k, v⟩ := item
    simp only [dumpableDict, Bool.and_eq_true] at h
    unfold withoutSig
    rw [List.filter_cons]
    split
    · simp only [dumpableDict, Bool.and_eq_true]
      exact ⟨h.1, ih h.2⟩
    · exact ih h.2

theorem dumpableDict_append {as bs : Dict} (ha : dumpableDict as = true)
    (hb : dumpableDict bs = true) : dumpableDict (as ++ bs) = true := by
  induction as with
  | nil => exact hb
  | cons item items ih =>
    obtain ⟨k, v⟩ := item
    simp only [dumpableDict, Bool.and_eq_true] at ha
    simp only [List.cons_append, dumpableDict, Bool.and_eq_true]
    exact ⟨ha.1, ih ha.2⟩

theorem canonicalBytes_of_dumpable {e : LedgerEntry} (h : dumpableDict e.evidence = true) :
    ∃ b, canonicalBytes e = some b := by
  unfold canonicalBytes
  rw [if_pos h]
  exact ⟨_, rfl⟩

theorem beforeAppend_of_dumpable {draft : LedgerEntry} (key : Option Bytes)
    (h : dumpableDict draft.evidence = true) :
    ∃ d, beforeAppend c key draft = some d ∧ dumpableDict d.evidence = true := by
  cases key with
  | none => exact ⟨draft, rfl, h⟩
  | some key =>
    have hunsigned := dumpableDict_withoutSig h
    obtain ⟨body, hbody⟩ := canonicalBytes_of_dumpable
      (e := { draft with evidence := withoutSig draft.evidence }) hunsigned
    simp only [beforeAppend, hbody, Option.map_some, Option.some.injEq]
    exact ⟨_, rfl, dumpableDict_append hunsigned (by simp [dumpableDict, Value.dumpable])⟩

/-- An entry whose evidence has a JSON form has a digest, with or without a signature. -/
theorem writtenEntry_of_dumpable {args : AppendArgs} (h : dumpableDict args.evidence = true)
    (seq : ℕ) (prev : String) : ∃ e, writtenEntry c args seq prev = some e := by
  obtain ⟨d, hd, hdump⟩ := beforeAppend_of_dumpable (c := c) args.key
    (show dumpableDict (LedgerEntry.evidence
      { seq, prevHash := prev, entryHash := "pending", actor := args.actor, action := args.action
        target := args.target, evidence := args.evidence, at_ := args.at_ }) = true from h)
  obtain ⟨b, hb⟩ := canonicalBytes_of_dumpable hdump
  have hhash : computeEntryHash c d = some (c.sha256 b) := by
    rw [computeEntryHash, hb]
    rfl
  simp only [writtenEntry, hd, hhash, Option.bind_eq_bind, Option.bind_some, Option.pure_def]
  exact ⟨_, rfl⟩

/-- A torn file whose lines verify and parse one by one is repaired. -/
theorem repaired_of_tailParses {w : World} {es : List LedgerEntry} (h : HandleId)
    (actor at_ : String) (key : Option Bytes)
    (hreads : LineReadsBack c (repairArgs c w es actor at_ key) es)
    (hdump : ∀ e, writtenEntry c (repairArgs c w es actor at_ key) es.length
      (tipHash genesisHash es) = some e → (c.modelDumpJson e).isSome = true)
    (htorn : rest w.raw ≠ []) (hscan : scanChain c 0 genesisHash (complete w.raw) = .ok es)
    (htail : TailParses c w.raw) (hcompleteTail : TailParses c (complete w.raw)) :
    Repaired c w h actor at_ key es := by
  obtain ⟨hrepair, hquarantine⟩ := repairTornTail_torn h actor at_ key htail htorn hscan
  have hv : Verified c (truncated w h es).file es :=
    ⟨(readTail_ok_iff _).mpr hcompleteTail, complete_terminated w.raw, hscan⟩
  have htip : TipRead c (truncated w h es) h es := by
    intro last n _ htrust
    simp only [trustsTail, truncated, setTip, Function.update_self, beq_iff_eq] at htrust
    exact htrust.symm
  have hevidence : dumpableDict (repairArgs c w es actor at_ key).evidence = true := by
    simp [repairArgs, repairAppend, dumpableDict, Value.dumpable]
  obtain ⟨e, hwritten⟩ := writtenEntry_of_dumpable (c := c) hevidence es.length
    (tipHash genesisHash es)
  obtain ⟨line, hline⟩ := Option.isSome_iff_exists.mp (hdump e hwritten)
  obtain ⟨w', happ⟩ := appendLocked_of_written (tipForAppend_of_verified hv htip) hwritten hline
  have hresult : repairTornTail c w h actor at_ key false =
      (.ok ⟨"repaired", (rest w.raw).length, es.length, c.sha256 (complete w.raw)⟩, w') := by
    rw [hrepair, happ]
  have ha := appendLocked_ok happ
  have hjsonEvidence : jsonEvidence (repairArgs c w es actor at_ key).key
      (repairArgs c w es actor at_ key).evidence = true := by
    cases key <;>
      simp [repairArgs, repairAppend, jsonEvidence, withoutSig, sigField, isJsonDict, Value.isJson]
  obtain ⟨⟨rep, hrep, -⟩, hentries, -⟩ := accepted_of_verified hv
    (show append c _ h (repairArgs c w es actor at_ key) none = _ from happ) hjsonEvidence
    (fun hact => by cases hact) htip hreads
  have hverified : Verified c w'.file (es ++ [e]) := verified_of_verify hrep hentries
  obtain ⟨line', hline', hworld⟩ := ha.world
  have hhash := (scanChain_ok.mp hverified.chain).2
  have hseq : e.seq = es.length ∧ tipHash genesisHash (es ++ [e]) = e.entryHash := by
    have hlinked := (verifyChain_cons.mp (verifyChain_append.mp hhash).2).1
    refine ⟨hlinked.seq.trans (Nat.zero_add _), ?_⟩
    rw [tipHash_append]
    rfl
  constructor
  case report => rw [hresult]
  case kept =>
    rw [hresult, hworld]
    exact ⟨line' ++ [newline], rfl⟩
  case quarantined => exact hquarantine
  case verified =>
    rw [hresult]
    exact ⟨e, hverified⟩
  case again =>
    intro h' actor' at' key' dryRun
    rw [hresult]
    dsimp only
    obtain ⟨hreport, hafter, hnone⟩ := repair_clean hverified h' actor' at' key' dryRun
    refine ⟨hreport, ?_, ?_, hnone⟩
    · rw [hafter]
      rfl
    · rw [hafter, hworld, hseq.2, List.length_append, ← hseq.1]
      rfl

/-- A repair that returns has read the tail. -/
theorem tailParses_of_report {w : World} {h : HandleId} {actor at_ : String}
    {key : Option Bytes} {dryRun : Bool} {rep : RepairReport}
    (hreport : (repairTornTail c w h actor at_ key dryRun).1 = .ok rep) : TailParses c w.raw := by
  apply (readTail_ok_iff w.file).mp
  cases hread : readTail c w.file with
  | ok r => exact ⟨r.1, r.2, rfl⟩
  | error e =>
    unfold repairTornTail at hreport
    rw [hread] at hreport
    cases hreport

/-- A repair is safe exactly when `read_tail` stands in the way neither before the truncation
nor after it. -/
theorem repair_safe_iff (c : Codec) (w : World) (h : HandleId) (actor at_ : String)
    (key : Option Bytes)
    (hreads : ∀ es, scanChain c 0 genesisHash (complete w.raw) = .ok es →
      LineReadsBack c (repairArgs c w es actor at_ key) es)
    (hdump : ∀ es e, scanChain c 0 genesisHash (complete w.raw) = .ok es →
      writtenEntry c (repairArgs c w es actor at_ key) es.length (tipHash genesisHash es) =
        some e → (c.modelDumpJson e).isSome = true) :
    RepairSafe c w h actor at_ key ↔
      (rest w.raw ≠ [] → (∃ es, scanChain c 0 genesisHash (complete w.raw) = .ok es) →
        TailParses c w.raw ∧ TailParses c (complete w.raw)) := by
  constructor
  · rintro hsafe htorn ⟨es, hscan⟩
    have hreport := (hsafe.repaired es htorn hscan).report
    have htail : TailParses c w.raw := tailParses_of_report hreport
    refine ⟨htail, ?_⟩
    rw [(repairTornTail_torn h actor at_ key htail htorn hscan).1] at hreport
    cases happ : appendLocked c (truncated w h es) h (repairArgs c w es actor at_ key) none with
    | mk res w' =>
      rw [happ] at hreport
      cases res with
      | error e => cases hreport
      | ok e =>
        obtain ⟨hread, -⟩ := terminated_of_tip (appendLocked_ok happ).tip
        exact (readTail_ok_iff _).mp hread
  · intro hcond
    refine ⟨fun es htorn hscan => ?_, repair_refuses h actor at_ key⟩
    obtain ⟨htail, hcompleteTail⟩ := hcond htorn ⟨es, hscan⟩
    exact repaired_of_tailParses h actor at_ key (hreads es hscan) (fun e => hdump es e hscan) htorn
      hscan htail hcompleteTail

/-- The entry of a repair that drops one byte behind the first entry of `spellCodec`. -/
def repairEntry (entryHash : String) : LedgerEntry where
  seq := 1
  prevHash := firstHash
  entryHash := entryHash
  actor := "operator"
  action := .ledgerRepaired
  target := "ledger:" ++ "ledger.jsonl"
  evidence := [("dropped_bytes", .int 1), ("prefix_sha256", .str (spell [48, 10])),
    ("prefix_entries", .int 1), ("reason", .str "torn_tail")]
  at_ := "2026-01-01T00:00:00Z"

def repairHash : String := ((canonicalBytes (repairEntry "pending")).map spell).getD ""

/-- The line `0` stands for the first entry, the line `2` for that of the repair. -/
def repairCodec : Codec where
  sha256 := spell
  hmacSha256 := fun _ _ => ""
  modelValidateJson := fun b =>
    if b = [48] then some firstEntry else if b = [50] then some (repairEntry repairHash) else none
  modelDumpJson := fun e =>
    match e with
    | ⟨seq, prev, hash, actor, action, target, [(k₁, .int dropped), (k₂, .str sha),
        (k₃, .int entries), (k₄, .str reason)], at_⟩ =>
      if (seq, prev, hash, actor, action, target, at_) = (1, firstHash, repairHash, "operator",
          LedgerAction.ledgerRepaired, "ledger:" ++ "ledger.jsonl", "2026-01-01T00:00:00Z") ∧
          (k₁, k₂, k₃, k₄) = ("dropped_bytes", "prefix_sha256", "prefix_entries", "reason") ∧
          (dropped, sha, entries, reason) = (1, spell [48, 10], 1, "torn_tail") then some [50]
      else none
    | _ => none
  storeReceipt := fun _ => false

theorem repairCodec_reads_back (e : LedgerEntry) (line : Bytes)
    (h : repairCodec.modelDumpJson e = some line) : ReadsBack repairCodec e line := by
  unfold repairCodec at h
  dsimp only at h
  split at h
  · split at h
    · rename_i heq
      simp only [Prod.mk.injEq] at heq
      obtain ⟨⟨rfl, rfl, rfl, rfl, rfl, rfl, rfl⟩, ⟨rfl, rfl, rfl, rfl⟩, rfl, rfl, rfl, rfl⟩ := heq
      cases h
      exact ⟨by decide, rfl⟩
    · cases h
  · cases h

/-- The first entry and one byte of a line that was cut short. -/
def tornFile : Bytes := [48, 10, 120]

theorem scan_torn : scanChain repairCodec 0 genesisHash (complete tornFile) = .ok [firstEntry] := by
  have hcomplete : complete tornFile = [48, 10] := rfl
  rw [hcomplete]
  refine scanChain_ok.mpr ⟨rfl, verifyChain_cons.mpr ⟨⟨rfl, rfl, ?_, fun h => by cases h⟩, rfl⟩⟩
  exact spellCodec_hash 0 genesisHash

/-- What a repair of that file writes. -/
theorem writtenEntry_torn : writtenEntry repairCodec (repairArgs repairCodec
    (start "ledger.jsonl" (some tornFile)) [firstEntry] "operator" "2026-01-01T00:00:00Z" none) 1
    firstHash = some (repairEntry repairHash) := by
  have hsum : computeEntryHash repairCodec (repairEntry "pending") = some repairHash := by
    simp [computeEntryHash, repairHash, canonicalBytes, repairEntry, dumpableDict,
      Value.dumpable, repairCodec]
  show ((computeEntryHash repairCodec (repairEntry "pending")).bind fun entryHash =>
    some { repairEntry "pending" with entryHash }) = some (repairEntry repairHash)
  rw [hsum]
  rfl

theorem repair_safe_torn_file :
    RepairSafe repairCodec (start "ledger.jsonl" (some tornFile)) 0 "operator"
      "2026-01-01T00:00:00Z" none := by
  apply (repair_safe_iff repairCodec (start "ledger.jsonl" (some tornFile)) 0 "operator"
    "2026-01-01T00:00:00Z" none
    (fun _ _ e line _ hdump => repairCodec_reads_back e line hdump) ?_).mpr
  · intro _ _
    constructor
    all_goals
      intro line hline
      have hfirst : line = [48] := Option.some.inj (hline.symm.trans rfl)
      rw [hfirst]
      rfl
  · intro es e hscan hwritten
    cases scan_torn.symm.trans hscan
    cases writtenEntry_torn.symm.trans hwritten
    simp [repairCodec, repairEntry]

/-- The line `01` stands for the first entry of `spellCodec`. -/
def wideCodec : Codec :=
  { spellCodec with modelValidateJson := fun b => if b = [48, 49] then some firstEntry else none }

/-- An entry, a blank line and a partial line of `n` bytes. -/
def paddedFile (n : ℕ) : Bytes := [48, 49, 10, 10] ++ List.replicate n 120

theorem newline_not_mem_padding (n : ℕ) : newline ∉ List.replicate n (120 : UInt8) := by
  intro h
  exact absurd (List.eq_of_mem_replicate h) (by decide)

theorem complete_padded (n : ℕ) :
    complete (paddedFile n) = [48, 49, 10, 10] ∧ rest (paddedFile n) = List.replicate n 120 :=
  ⟨complete_append (Or.inr ⟨[48, 49, 10], rfl⟩) (newline_not_mem_padding n),
    rest_append_terminated (Or.inr ⟨[48, 49, 10], rfl⟩) (newline_not_mem_padding n)⟩

/-- The window starts one byte into the entry, and the blank line has it look there. -/
theorem tailLine_padded {n : ℕ} (hn : n + 3 = tailWindow) :
    tailLine (tailData (paddedFile n)) = some [49] := by
  have hlen : (paddedFile n).length = n + 3 + 1 := by
    rw [paddedFile, List.length_append, List.length_replicate, Nat.add_comm]
    rfl
  have hdrop : (paddedFile n).drop 1 = [49, 10, 10] ++ List.replicate n 120 := rfl
  have hcount : 2 ≤ ((paddedFile n).drop 1).count newline := by
    rw [hdrop, List.count_append]
    exact Nat.le_add_right 2 _
  have hstart : tailStart (paddedFile n) (n + 3 + 1) (n + 3 + 1) tailWindow = 1 := by
    rw [tailStart, ← hn, Nat.add_sub_cancel_left, if_pos (Or.inl hcount)]
  have hdata : tailData (paddedFile n) = [49] ++ newline :: ([] ++ newline ::
      List.replicate n 120) := by
    rw [tailData, hlen, hstart]
    rfl
  rw [hdata, tailLine, records_append_newline, records_append_newline,
    records_of_not_mem (newline_not_mem_padding n)]
  rfl

theorem padded_not_repaired {n : ℕ} (hn : n + 3 = tailWindow) :
    scanChain wideCodec 0 genesisHash (complete (paddedFile n)) = .ok [firstEntry] ∧
    ¬ RepairSafe wideCodec (start "ledger.jsonl" (some (paddedFile n))) 0 "operator"
      "2026-01-01T00:00:00Z" none := by
  obtain ⟨hcomplete, hrest⟩ := complete_padded n
  have hscan : scanChain wideCodec 0 genesisHash (complete (paddedFile n)) = .ok [firstEntry] := by
    rw [hcomplete]
    refine scanChain_ok.mpr ⟨rfl, verifyChain_cons.mpr ⟨⟨rfl, rfl, ?_, fun h => by cases h⟩, rfl⟩⟩
    exact spellCodec_hash 0 genesisHash
  refine ⟨hscan, fun hsafe => ?_⟩
  have htorn : rest (paddedFile n) ≠ [] := by
    rw [hrest]
    intro hnil
    have hlen := congrArg List.length hnil
    rw [List.length_replicate] at hlen
    subst hlen
    exact absurd hn (by decide)
  have hreport := (hsafe.repaired [firstEntry] htorn hscan).report
  have htail := tailParses_of_report hreport
  have hraw : (start "ledger.jsonl" (some (paddedFile n))).raw = paddedFile n := rfl
  rw [hraw] at htail
  exact absurd (htail _ (tailLine_padded hn)) (by decide)

/-- One blank line behind the entries and a partial line as long as the window: `read_tail` sees
the end of the last entry only, and the verified ledger is not repaired. -/
theorem padded_file_not_repaired :
    scanChain wideCodec 0 genesisHash (complete (paddedFile 1048573)) = .ok [firstEntry] ∧
    ¬ RepairSafe wideCodec (start "ledger.jsonl" (some (paddedFile 1048573))) 0 "operator"
      "2026-01-01T00:00:00Z" none :=
  padded_not_repaired rfl

end Recertia.Ledger
