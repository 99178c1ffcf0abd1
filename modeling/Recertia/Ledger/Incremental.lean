import Recertia.Ledger.Append

/-! What the sidecar is worth: when a suffix scan may stand for a full one. -/
namespace Recertia.Ledger
open Lines Json Transition
variable {c : Codec}

/-- `verify(full=False)` succeeds only where `verify(full=True)` does. -/
def Sound (c : Codec) (w : World) : Prop :=
  ∀ h rep, (verify c w h false).1 = .ok rep → ∃ rep', (verify c w h true).1 = .ok rep'

/-- In the state before the run and in every state of it. -/
def IncrementalSound (c : Codec) (w : World) (ls : List Label) : Prop :=
  Sound c w ∧ (system c).Along (fun _ _ w' => Sound c w') w ls

/-- A time in UTC, as pydantic writes it. -/
def utc (at_ : String) : Prop := ∃ time, at_ = time ++ "Z"

/-- An append that returns starts from a file that verifies, does not misread its tip, and
writes a line that is read back and no closing receipt that is not a store receipt. A repair
stamps its entry with `datetime.now(timezone.utc)`. -/
def HonestAppend (c : Codec) (w : World) (l : Label) (_ : World) : Prop :=
  match l with
  | .append h args none =>
    (∃ e w', append c w h args none = (.ok e, w')) →
      ∃ es, Verified c w.file es ∧ TipRead c w h es ∧ LineReadsBack c args es ∧
        (args.action = .closeReceipt →
          c.storeReceipt (withoutSig (jsonModeDict args.evidence)) = true)
  | .repair _ _ at_ _ _ => utc at_
  | _ => True

/-- What a repair appends when it has cut `dropped` bytes off behind `entries` entries. -/
def repairAppend (path actor at_ : String) (key : Option Bytes) (dropped : ℕ) (prefixSha : String)
    (entries : ℕ) : AppendArgs where
  actor := actor
  action := .ledgerRepaired
  target := "ledger:" ++ path
  evidence := [("dropped_bytes", .int dropped), ("prefix_sha256", .str prefixSha),
    ("prefix_entries", .int entries), ("reason", .str "torn_tail")]
  at_ := at_
  key := key

/-- The line of a repair's own entry is read back. -/
def RepairReadsBack (c : Codec) : Prop :=
  ∀ path actor at_ key dropped prefixSha es, utc at_ →
    LineReadsBack c (repairAppend path actor at_ key dropped prefixSha es.length) es

/-- The sidecar, where there is one, was written over a file that verifies. -/
def SidecarSound (c : Codec) (w : World) : Prop :=
  ∀ side, w.sidecar = some side → ∃ p es, Terminated p ∧ scanChain c 0 genesisHash p = .ok es ∧
    side.entries = es.length ∧ side.tipHash = tipHash genesisHash es ∧
    side.prefixBytes = p.length ∧ side.prefixSha256 = c.sha256 p

theorem sidecarSound_start (path : String) (file : Option Bytes) :
    SidecarSound c (start path file) := fun _ h => by cases h

theorem sidecarSound_congr {w w' : World} (h : w'.sidecar = w.sidecar) (hs : SidecarSound c w) :
    SidecarSound c w' := fun side hside => hs side (h ▸ hside)

theorem sidecarSound_write {w : World} {n : Nat} {t : String} {es : List LedgerEntry}
    (hterm : Terminated w.raw) (hscan : scanChain c 0 genesisHash w.raw = .ok es)
    (hn : n = es.length) (ht : t = tipHash genesisHash es) :
    SidecarSound c (writeSidecar c w n t) := by
  intro side hside
  cases hside
  exact ⟨w.raw, es, hterm, hscan, hn, ht, rfl, rfl⟩

/-- The prefix that a matching sidecar stands for is the file's own. -/
theorem sidecar_prefix {w : World} {side : TipSidecar} (hsha : Function.Injective c.sha256)
    (hs : SidecarSound c w) (hside : w.sidecar = some side)
    (hmatch : sidecarMatches c w.file side = true) :
    ∃ s es, w.raw = w.raw.take side.prefixBytes ++ s ∧ s = w.raw.drop side.prefixBytes ∧
      Terminated (w.raw.take side.prefixBytes) ∧
      scanChain c 0 genesisHash (w.raw.take side.prefixBytes) = .ok es ∧
      side.entries = es.length ∧ side.tipHash = tipHash genesisHash es := by
  obtain ⟨p, es, hterm, hscan, hn, ht, -, hdigest⟩ := hs side hside
  have hp : w.raw.take side.prefixBytes = p := by
    unfold sidecarMatches at hmatch
    split at hmatch
    · cases hmatch
    · rename_i raw hraw
      simp only [Bool.and_eq_true, beq_iff_eq] at hmatch
      apply hsha
      rw [← hdigest, ← hmatch.2, World.raw, hraw, Option.getD_some]
  exact ⟨_, es, (List.take_append_drop _ _).symm, rfl, hp ▸ hterm, hp ▸ hscan, hn, ht⟩

/-- A suffix scan from a sound sidecar is a full scan of the file. -/
theorem suffix_scan {w : World} {side : TipSidecar} {bs : List LedgerEntry}
    (hsha : Function.Injective c.sha256) (hs : SidecarSound c w) (hside : w.sidecar = some side)
    (hmatch : sidecarMatches c w.file side = true)
    (hscan : scanChain c side.entries side.tipHash (w.raw.drop side.prefixBytes) = .ok bs) :
    ∃ es, scanChain c 0 genesisHash w.raw = .ok es ∧ side.entries + bs.length = es.length ∧
      tipHash side.tipHash bs = tipHash genesisHash es := by
  obtain ⟨s, as, hsplit, hdrop, hterm, has, hn, ht⟩ := sidecar_prefix hsha hs hside hmatch
  refine ⟨as ++ bs, ?_, ?_, ?_⟩
  · rw [hsplit, scanChain_append hterm]
    refine ⟨as, bs, has, ?_, rfl⟩
    rw [hdrop, Nat.zero_add, ← hn, ← ht]
    exact hscan
  · rw [List.length_append, hn]
  · rw [ht, ← tipHash_append]

theorem usableSidecar_some {w : World} {full : Bool} {n : Nat} {side : TipSidecar}
    (h : usableSidecar c w full n = some side) :
    w.sidecar = some side ∧ sidecarMatches c w.file side = true := by
  unfold usableSidecar at h
  split at h
  · cases h
  · simp only [Option.filter_eq_some_iff, Bool.and_eq_true] at h
    exact ⟨h.1, h.2.1⟩

/-- A successful verification has scanned, one way or the other, the whole file; what it
writes over the sidecar says so. -/
theorem verify_ok {w w' : World} {h : HandleId} {full : Bool} {rep : VerifyReport}
    (hsha : Function.Injective c.sha256) (hs : SidecarSound c w)
    (hv : verify c w h full = (.ok rep, w')) :
    (∃ es, Verified c w.file es) ∧ SidecarSound c w' := by
  unfold verify at hv
  split at hv
  · cases hv
  · rename_i last n htail
    split at hv
    · cases hv
    · rename_i hlen
      have hle : w.raw.length ≤ n := Nat.le_of_not_lt hlen
      have hterm : Terminated w.raw := (readTail_complete htail).mp hle
      simp only [List.take_of_length_le hle] at hv
      split at hv
      · rename_i side huse
        obtain ⟨hside, hmatch⟩ := usableSidecar_some huse
        split at hv
        · cases hv
        · rename_i bs hbs
          obtain ⟨es, hes, hn, ht⟩ := suffix_scan hsha hs hside hmatch hbs
          cases hv
          refine ⟨⟨es, ⟨⟨last, n, htail⟩, hterm, hes⟩⟩, ?_⟩
          split
          · exact sidecarSound_congr rfl hs
          · exact sidecarSound_write hterm hes hn ht
      · split at hv
        · cases hv
        · rename_i es hes
          cases hv
          exact ⟨⟨es, ⟨⟨last, n, htail⟩, hterm, hes⟩⟩, sidecarSound_write hterm hes rfl rfl⟩

theorem verify_error {w w' : World} {h : HandleId} {full : Bool} {e : LedgerError}
    (hv : verify c w h full = (.error e, w')) : w' = w := by
  unfold verify at hv
  split at hv
  · cases hv; rfl
  · split at hv
    · cases hv; rfl
    · dsimp only at hv
      split at hv
      · split at hv
        · cases hv; rfl
        · cases hv
      · split at hv
        · cases hv; rfl
        · cases hv

theorem sound_of_sidecarSound {w : World} (hsha : Function.Injective c.sha256)
    (hs : SidecarSound c w) : Sound c w := by
  intro h rep hv
  obtain ⟨⟨es, hes⟩, -⟩ := verify_ok hsha hs (Prod.ext hv rfl)
  exact ⟨_, (verify_full_iff w h _).mpr ⟨es, hes, rfl⟩⟩

theorem sidecarSound_verify {w : World} (h : HandleId) (full : Bool)
    (hsha : Function.Injective c.sha256) (hs : SidecarSound c w) :
    SidecarSound c (verify c w h full).2 := by
  rcases hv : verify c w h full with ⟨r, w'⟩
  cases r with
  | ok rep => exact (verify_ok hsha hs hv).2
  | error e => rwa [verify_error hv]

theorem withoutSig_jsonMode (evidence : Dict) :
    withoutSig (jsonModeDict evidence) = jsonModeDict (withoutSig evidence) :=
  (jsonModeDict_filter (fun k => k ≠ sigField) evidence).symm

/-- An entry and its round trip have one hash. -/
theorem computeEntryHash_roundTrip {e : LedgerEntry}
    (hh : computeEntryHash c e = some e.entryHash) :
    computeEntryHash c e.roundTrip = some e.entryHash := by
  rw [← hh]
  have hd : dumpableDict e.evidence = true := by
    by_contra hne
    simp [computeEntryHash, canonicalBytes, hne] at hh
  simp [computeEntryHash, canonicalBytes, LedgerEntry.roundTrip, hd, dumpable_jsonModeDict]

/-- An honest append leaves a sidecar over a file that verifies. -/
theorem sidecarSound_appended {w w' : World} {h : HandleId} {args : AppendArgs} {e : LedgerEntry}
    {es : List LedgerEntry} (ha : Appended c w h args e w') (hv : Verified c w.file es)
    (htip : TipRead c w h es) (hreads : LineReadsBack c args es)
    (hreceipt : args.action = .closeReceipt →
      c.storeReceipt (withoutSig (jsonModeDict args.evidence)) = true) : SidecarSound c w' := by
  obtain ⟨line, hline, rfl⟩ := ha.world
  obtain ⟨-, hentries, hchain⟩ := verified_append_line hv
    (hreads e line (writtenEntry_of_tipRead ha hv htip) hline)
  have hread := (tipForAppend_verified hv ha.tip).mpr htip
  simp only [Prod.mk.injEq] at hread
  have hlinked : Linked c es.length (tipHash genesisHash es) e.roundTrip := by
    refine ⟨hread.1, hread.2, computeEntryHash_roundTrip ha.entryHash, fun hact => ?_⟩
    have hev : withoutSig e.roundTrip.evidence = withoutSig (jsonModeDict args.evidence) := by
      rw [withoutSig_jsonMode, ← ha.evidence]
      exact withoutSig_jsonMode e.evidence
    rw [hev]
    exact hreceipt (ha.action.symm.trans hact)
  refine sidecarSound_write (terminated_append_line _ _)
    (scanChain_ok.mpr ⟨hentries, hchain.mpr hlinked⟩) ?_ ?_
  · simp [hread.1]
  · simp [tipHash, LedgerEntry.roundTrip]

theorem append_error {w w' : World} {h : HandleId} {args : AppendArgs} {fault : Option Fault}
    {e : LedgerError} (happ : appendLocked c w h args fault = (.error e, w')) :
    w'.sidecar = w.sidecar := by
  unfold appendLocked at happ
  split at happ
  · cases happ
    rfl
  · dsimp only at happ
    split at happ
    · cases happ
      rfl
    · split at happ <;> cases happ <;> rfl

/-- An append that is cut short does not return. -/
theorem appendLocked_fault {w w' : World} {h : HandleId} {args : AppendArgs} {e : LedgerEntry}
    (f : Fault) : appendLocked c w h args (some f) ≠ (.ok e, w') := by
  intro happ
  unfold appendLocked at happ
  split at happ
  · cases happ
  · dsimp only at happ
    split at happ
    · cases happ
    · cases f <;> cases happ

/-- A file whose tip `append` has read is terminated. -/
theorem terminated_of_tip {w : World} {h : HandleId} {t : Nat × String}
    (ht : tipForAppend c w h = .ok t) :
    (∃ last n, readTail c w.file = .ok (last, n)) ∧ Terminated w.raw := by
  unfold tipForAppend at ht
  cases htail : readTail c w.file with
  | error e =>
    rw [htail] at ht
    cases ht
  | ok r =>
    obtain ⟨last, n⟩ := r
    refine ⟨⟨last, n, rfl⟩, (readTail_complete htail).mp ?_⟩
    by_contra hlt
    have hlt' : n < w.raw.length := Nat.lt_of_not_le hlt
    simp only [htail, bind, Except.bind, if_pos hlt'] at ht
    cases ht

/-- A repair appends to the prefix it has just verified. -/
theorem sidecarSound_repair {w : World} (h : HandleId) (actor at_ : String) (key : Option Bytes)
    (dryRun : Bool) (hsha : Function.Injective c.sha256) (hrepair : RepairReadsBack c)
    (hat : utc at_) (hs : SidecarSound c w) : SidecarSound c (repairTornTail c w h actor at_ key dryRun).2 := by
  unfold repairTornTail
  split
  · exact hs
  · rename_i last n htail
    split
    · dsimp only
      split
      · exact hs
      · rename_i es hscan
        split
        · exact hs
        · split
          · rename_i e w' happ
            exact sidecarSound_congr (append_error happ) hs
          · rename_i e w' happ
            have ha := appendLocked_ok happ
            obtain ⟨hread, hterm⟩ := terminated_of_tip ha.tip
            have hv : Verified c (some (w.raw.take n)) es := ⟨hread, hterm, hscan⟩
            refine sidecarSound_appended ha hv ?_ (hrepair _ _ _ _ _ _ es hat)
              (fun hact => by cases hact)
            intro last' n' _ htrust
            simp only [trustsTail, setTip, Function.update_self, beq_iff_eq] at htrust
            exact htrust.symm
    · have hverify := sidecarSound_verify h true hsha hs
      rcases hres : verify c w h true with ⟨r, w'⟩
      rw [hres] at hverify
      cases r <;> exact hverify

theorem sidecarSound_step {w w' : World} {l : Label} (hsha : Function.Injective c.sha256)
    (hrepair : RepairReadsBack c) (hs : SidecarSound c w) (h : (system c).step w l = some w') (hl : HonestAppend c w l w') :
    SidecarSound c w' := by
  cases Option.some.inj h
  cases l with
  | append hd args fault =>
    simp only [step]
    unfold append
    split
    · rename_i hfence
      rcases happ : appendLocked c w hd args fault with ⟨r, w'⟩
      cases r with
      | error e => exact sidecarSound_congr (append_error happ) hs
      | ok e =>
        have ha := appendLocked_ok happ
        cases fault with
        | none =>
          have happ' : append c w hd args none = (.ok e, w') := by
            rw [append, if_pos hfence, happ]
          obtain ⟨es, hv, htip, hreads, hreceipt⟩ := hl ⟨e, w', happ'⟩
          exact sidecarSound_appended ha hv htip hreads hreceipt
        | some f => exact absurd happ (appendLocked_fault f)
    · exact hs
  | verify hd full => exact sidecarSound_verify hd full hsha hs
  | repair hd actor at_ key dryRun =>
    exact sidecarSound_repair hd actor at_ key dryRun hsha hrepair hl hs
  | edit file => exact sidecarSound_congr rfl hs

/-- Suffix verification is sound in every run whose returning appends are honest,
whatever is done to the ledger file from outside. -/
theorem incremental_sound (path : String) (file : Option Bytes) (ls : List Label)
    (hsha : Function.Injective c.sha256) (hrepair : RepairReadsBack c)
    (hl : (system c).Along (HonestAppend c) (start path file) ls) :
    IncrementalSound c (start path file) ls := by
  have hstart : SidecarSound c (start path file) := sidecarSound_start path file
  refine ⟨sound_of_sidecarSound hsha hstart, System.along_of_invariant
    (fun _ _ _ hs h hg => sidecarSound_step hsha hrepair hs h hg)
    (fun _ _ _ hs h hg => sound_of_sidecarSound hsha (sidecarSound_step hsha hrepair hs h hg))
    hstart hl⟩

/-- An injective digest. -/
def spell (b : Bytes) : String := String.ofList (b.map fun x => Char.ofNat x.toNat)

theorem spell_injective : Function.Injective spell := by
  have hchar : Function.Injective fun x : UInt8 => Char.ofNat x.toNat := by
    intro x y hxy
    have hvalid : ∀ z : UInt8, (Char.ofNat z.toNat).toNat = z.toNat := by
      intro z
      have hz : z.toNat.isValidChar := Or.inl (by have := z.toNat_lt; omega)
      unfold Char.ofNat
      rw [dif_pos hz]
      rfl
    exact UInt8.toNat_inj.mp ((hvalid x).symm.trans ((congrArg Char.toNat hxy).trans (hvalid y)))
  intro a b hab
  exact (List.map_injective_iff.mpr hchar) (String.ofList_injective hab)

def plainArgs : AppendArgs where
  actor := "engine"
  action := .write
  target := "skill-1"
  evidence := []
  at_ := "2026-01-01T00:00:00Z"

/-- An entry of a ledger that spells its digests out. -/
def plainEntry (seq : Nat) (prevHash entryHash : String) : LedgerEntry where
  seq := seq
  prevHash := prevHash
  entryHash := entryHash
  actor := "engine"
  action := .write
  target := "skill-1"
  evidence := []
  at_ := "2026-01-01T00:00:00Z"

def spelledHash (seq : Nat) (prevHash : String) : String :=
  ((canonicalBytes (plainEntry seq prevHash "pending")).map spell).getD ""

def firstHash : String := spelledHash 0 genesisHash
def firstEntry : LedgerEntry := plainEntry 0 genesisHash firstHash
def secondHash : String := spelledHash 1 firstHash
def secondEntry : LedgerEntry := plainEntry 1 firstHash secondHash

/-- The lines `0` and `1` stand for the two entries. -/
def spellCodec : Codec where
  sha256 := spell
  hmacSha256 := fun _ _ => ""
  modelValidateJson := fun b =>
    if b = [48] then some firstEntry else if b = [49] then some secondEntry else none
  modelDumpJson := fun e =>
    match e with
    | ⟨seq, prev, hash, actor, action, target, [], at_⟩ =>
      if (seq, prev, hash, actor, action, target, at_) = (0, genesisHash, firstHash, "engine",
          LedgerAction.write, "skill-1", "2026-01-01T00:00:00Z") then some [48]
      else if (seq, prev, hash, actor, action, target, at_) = (1, firstHash, secondHash, "engine",
          LedgerAction.write, "skill-1", "2026-01-01T00:00:00Z") then some [49]
      else none
    | _ => none
  storeReceipt := fun _ => false

theorem spellCodec_reads_back (e : LedgerEntry) (line : Bytes)
    (h : spellCodec.modelDumpJson e = some line) : ReadsBack spellCodec e line := by
  obtain ⟨seq, prev, hash, actor, action, target, evidence, at_⟩ := e
  cases evidence with
  | cons item items => simp [spellCodec] at h
  | nil =>
    simp only [spellCodec] at h
    split at h
    · rename_i he
      simp only [Prod.mk.injEq] at he
      obtain ⟨rfl, rfl, rfl, rfl, rfl, rfl, rfl⟩ := he
      cases h
      exact ⟨by decide, rfl⟩
    · split at h
      · rename_i he
        simp only [Prod.mk.injEq] at he
        obtain ⟨rfl, rfl, rfl, rfl, rfl, rfl, rfl⟩ := he
        cases h
        exact ⟨by decide, rfl⟩
      · cases h

theorem spellCodec_hash (seq : Nat) (prev : String) :
    computeEntryHash spellCodec (plainEntry seq prev "pending") = some (spelledHash seq prev) := by
  simp [computeEntryHash, spelledHash, canonicalBytes, plainEntry, dumpableDict, spellCodec]

theorem incremental_sound_append_verify : IncrementalSound spellCodec (start "ledger.jsonl" none)
    [.append 0 plainArgs none, .verify 0 false] := by
  have hreads : ∀ args es, LineReadsBack spellCodec args es :=
    fun _ _ e line _ hdump => spellCodec_reads_back e line hdump
  refine incremental_sound "ledger.jsonl" none _ spell_injective
    (fun _ _ _ _ _ _ es _ => hreads _ es) ?_
  refine fun _ _ => ⟨fun _ => ⟨[], ⟨⟨_, _, rfl⟩, Or.inl rfl, rfl⟩, ?_, hreads _ _, ?_⟩,
    fun _ _ => ⟨trivial, trivial⟩⟩
  · intro _ _ _ htrust
    cases htrust
  · intro hact
    cases hact

theorem spellCodec_dump :
    spellCodec.modelDumpJson firstEntry = some [48] ∧
      spellCodec.modelDumpJson secondEntry = some [49] := by
  simp [spellCodec, firstEntry, secondEntry, plainEntry]

/-- One handle appends, the ledger is tampered with before its last line, and the same
handle appends again. -/
def tamper : List Label :=
  [.append 0 plainArgs none, .edit (some [120, 10, 48, 10]), .append 0 plainArgs none]

def appendedOnce : World :=
  writeSidecar spellCodec
    (setTip { start "ledger.jsonl" none with file := some [48, 10] } 0 (1, firstHash)) 1 firstHash

def tampered : World := { appendedOnce with file := some [120, 10, 48, 10] }

def appendedTwice : World :=
  writeSidecar spellCodec
    (setTip { tampered with file := some [120, 10, 48, 10, 49, 10] } 0 (2, secondHash)) 2 secondHash

theorem append_once :
    append spellCodec (start "ledger.jsonl" none) 0 plainArgs none = (.ok firstEntry, appendedOnce) :=
  @append_of spellCodec (start "ledger.jsonl" none) 0 plainArgs 0 genesisHash firstHash [48] rfl rfl
    rfl (spellCodec_hash 0 genesisHash) spellCodec_dump.1

theorem readTail_tampered {e : LedgerEntry} (file : Bytes) (b : UInt8) (hf : Terminated file)
    (hb : isLine [b] = true) (hp : spellCodec.modelValidateJson [b] = some e) :
    readTail spellCodec (some (file ++ [b, newline])) = .ok (some e, file.length + 2) := by
  obtain ⟨hn, -, hblank⟩ := isLine_iff.mp hb
  have htail := readTail_line hf hn hblank hp
  simpa using htail

/-- The cached tip is that of the last line, so nothing before it is looked at. -/
theorem append_twice : append spellCodec tampered 0 plainArgs none = (.ok secondEntry, appendedTwice) := by
  have htail : readTail spellCodec tampered.file = .ok (some firstEntry, 4) :=
    readTail_tampered [120, 10] 48 (Or.inr ⟨[120], rfl⟩) (by decide) rfl
  have hlen : ¬ 4 < tampered.raw.length := by decide
  have htrust : trustsTail spellCodec tampered 0 (observedTip (some firstEntry)) = true := by
    simp [trustsTail, tampered, appendedOnce, writeSidecar, setTip, observedTip, firstEntry,
      plainEntry]
  have htip : tipForAppend spellCodec tampered 0 = .ok (1, firstHash) := by
    simp only [tipForAppend, htail, bind, Except.bind, if_neg hlen, if_pos htrust]
    rfl
  exact @append_of spellCodec tampered 0 plainArgs 1 firstHash secondHash [49] rfl rfl htip
    (spellCodec_hash 1 firstHash) spellCodec_dump.2

theorem tampered_suffix_passes :
    (verify spellCodec appendedTwice 0 false).1 = .ok ⟨2, false, 0, secondHash⟩ := by
  have htail : readTail spellCodec appendedTwice.file = .ok (some secondEntry, 6) :=
    readTail_tampered [120, 10, 48, 10] 49 (Or.inr ⟨[120, 10, 48], rfl⟩) (by decide) rfl
  have hlen : ¬ 6 < appendedTwice.raw.length := by decide
  have huse : usableSidecar spellCodec appendedTwice false 6 =
      some ⟨2, 2, secondHash, 6, spell [120, 10, 48, 10, 49, 10]⟩ := by
    simp [usableSidecar, appendedTwice, writeSidecar, setTip, tampered, World.raw, sidecarMatches,
      spellCodec]
  simp only [verify, htail, if_neg hlen, huse]
  rfl

theorem tampered_full_fails (rep : VerifyReport) :
    (verify spellCodec appendedTwice 0 true).1 ≠ .ok rep := by
  intro hv
  obtain ⟨es, hes, -⟩ := (verify_full_iff _ _ _).mp hv
  have hentries := (scanChain_ok.mp hes.chain).1
  obtain ⟨as, bs, has, -, -⟩ := (entriesFromBytes_append (p := [120, 10]) (s := [48, 10, 49, 10])
    (Or.inr ⟨[120], rfl⟩) es).mp hentries
  cases has

theorem tampered_unsound : Function.Injective spellCodec.sha256 ∧
    (∀ e line, spellCodec.modelDumpJson e = some line → ReadsBack spellCodec e line) ∧
    ¬ IncrementalSound spellCodec (start "ledger.jsonl" none) tamper := by
  refine ⟨spell_injective, spellCodec_reads_back, fun h => ?_⟩
  have hstep : ∀ w w' : World, ∀ e args, append spellCodec w 0 args none = (.ok e, w') →
      (system spellCodec).step w (.append 0 args none) = some w' := by
    intro w w' e args happ
    simp [system, step, happ]
  have htwice := (((h.2 _ (hstep _ _ _ _ append_once)).2 tampered rfl).2 _
    (hstep _ _ _ _ append_twice)).1
  obtain ⟨rep, hrep⟩ := htwice 0 _ tampered_suffix_passes
  exact tampered_full_fails rep hrep

end Recertia.Ledger
