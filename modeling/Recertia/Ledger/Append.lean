import Recertia.Ledger.HashChain

/-! What an append leaves behind for full verification. -/
namespace Recertia.Ledger
open Lines Json Transition
variable {c : Codec}

theorem tailStart_spec (file : Bytes) (passes end_ window : Nat) :
    tailStart file passes end_ window = 0 ∨
      2 ≤ (file.drop (tailStart file passes end_ window)).count newline := by
  induction passes generalizing end_ window with
  | zero => exact Or.inl rfl
  | succ n ih =>
    simp only [tailStart]
    split
    · rename_i h
      exact h.symm
    · exact ih _ _

/-- The window of `read_tail` holds all of the last complete line, also before a partial one. -/
theorem tail_holds_line {file line partialLine : Bytes} (hf : Terminated file)
    (h : newline ∉ line) (hs : newline ∉ partialLine) (passes end_ window : Nat) :
    ∃ q, Terminated q ∧ (file ++ (line ++ [newline]) ++ partialLine).drop
      (tailStart (file ++ (line ++ [newline]) ++ partialLine) passes end_ window) =
        q ++ (line ++ [newline]) ++ partialLine := by
  have hspec := tailStart_spec (file ++ (line ++ [newline]) ++ partialLine) passes end_ window
  revert hspec
  generalize tailStart (file ++ (line ++ [newline]) ++ partialLine) passes end_ window = start
  intro hspec
  rcases hspec with rfl | hcount
  · exact ⟨file, hf, List.drop_zero⟩
  · rw [List.append_assoc] at hcount ⊢
    rcases Nat.lt_or_ge file.length start with hlt | hge
    · -- past the file only one newline is left
      have hdrop : (file ++ ((line ++ [newline]) ++ partialLine)).drop start =
          ((line ++ [newline]) ++ partialLine).drop (start - file.length) := by
        rw [List.drop_append, List.drop_eq_nil_of_le (Nat.le_of_lt hlt), List.nil_append]
      have hle : (((line ++ [newline]) ++ partialLine).drop (start - file.length)).count
          newline ≤ 1 :=
        calc (((line ++ [newline]) ++ partialLine).drop (start - file.length)).count newline
            ≤ ((line ++ [newline]) ++ partialLine).count newline :=
              (List.drop_sublist _ _).count_le _
          _ = 1 := by
            simp [List.count_eq_zero_of_not_mem h, List.count_eq_zero_of_not_mem hs]
      rw [hdrop] at hcount
      omega
    · refine ⟨file.drop start, terminated_drop hf start, ?_⟩
      rw [List.drop_append, Nat.sub_eq_zero_of_le hge, List.drop_zero]
      simp only [List.append_assoc]

theorem readTail_line {file line : Bytes} {e : LedgerEntry} (hf : Terminated file)
    (hn : newline ∉ line) (hb : isBlank line = false) (hp : c.modelValidateJson line = some e) :
    readTail c (some (file ++ (line ++ [newline]))) =
      .ok (some e, (file ++ (line ++ [newline])).length) := by
  obtain ⟨q, hq, hdata⟩ := tail_holds_line hf hn List.not_mem_nil
    (file ++ (line ++ [newline])).length (file ++ (line ++ [newline])).length tailWindow
  rw [List.append_nil, List.append_nil] at hdata
  have hmem : newline ∈ q ++ (line ++ [newline]) := by simp
  have hrest : rest (q ++ (line ++ [newline])) = [] := rest_of_terminated (terminated_append_line q line)
  have hline : tailLine (q ++ (line ++ [newline])) = some line := by
    simp [tailLine, records_append_line hq hn, List.dropLast_append_of_ne_nil, hb]
  simp only [readTail, Option.getD_some, hdata, hmem, if_true, hline, hp, hrest, List.length_nil,
    Nat.sub_zero]

/-- `read_tail` finds no torn tail exactly in the files whose records are all terminated. -/
theorem readTail_complete {file : Option Bytes} {last : Option LedgerEntry} {n : Nat}
    (h : readTail c file = .ok (last, n)) :
    (file.getD []).length ≤ n ↔ Terminated (file.getD []) := by
  generalize hraw : file.getD [] = raw at h ⊢
  have hspec := tailStart_spec raw raw.length raw.length tailWindow
  simp only [readTail, hraw] at h
  generalize tailStart raw raw.length raw.length tailWindow = start at h hspec
  have hsplit : raw.take start ++ raw.drop start = raw := List.take_append_drop start raw
  split at h
  · rename_i hmem
    have hn : n = raw.length - (rest (raw.drop start)).length := by
      split at h
      · cases h; rfl
      · split at h
        · cases h
        · cases h; rfl
    have hpos : 0 < raw.length := by
      cases raw with
      | nil => simp at hmem
      | cons b bs => simp
    constructor
    · intro hle
      have hrest : rest (raw.drop start) = [] := List.length_eq_zero_iff.mp (by omega)
      rcases terminated_of_rest hmem hrest with hnil | ⟨p, hp⟩
      · rw [hnil] at hmem
        cases hmem
      · right
        refine ⟨raw.take start ++ p, ?_⟩
        rw [List.append_assoc, ← hp, hsplit]
    · intro hterm
      rw [hn, rest_of_terminated (terminated_drop hterm start)]
      simp
  · rename_i hmem
    cases h
    constructor
    · intro hle
      exact Or.inl (List.length_eq_zero_iff.mp (Nat.le_zero.mp hle))
    · rintro (hnil | ⟨p, rfl⟩)
      · simp [hnil]
      · -- a terminated file has a newline in every window
        exfalso
        rcases hspec with rfl | hcount
        · exact hmem (by simp)
        · exact hmem (List.count_pos_iff.mp (by omega))

theorem entriesFromBytes_append {p s : Bytes} (hp : Terminated p) (es : List LedgerEntry) :
    entriesFromBytes c (p ++ s) = .ok es ↔ ∃ as bs, entriesFromBytes c p = .ok as ∧
      entriesFromBytes c s = .ok bs ∧ es = as ++ bs := by
  have happ : entriesFromBytes c (p ++ s) = do
      let as ← entriesFromBytes c p
      let bs ← entriesFromBytes c s
      return as ++ bs := by
    simp only [entriesFromBytes, splitlines_append hp, List.filter_append, List.mapM_append]
  rw [happ]
  cases entriesFromBytes c p with
  | error e => exact ⟨fun h => (by cases h), fun ⟨_, _, h, _⟩ => (by cases h)⟩
  | ok as =>
    cases entriesFromBytes c s with
    | error e => exact ⟨fun h => (by cases h), fun ⟨_, _, _, h, _⟩ => (by cases h)⟩
    | ok bs =>
      constructor
      · intro h
        cases h
        exact ⟨as, bs, rfl, rfl, rfl⟩
      · rintro ⟨as', bs', has, hbs, rfl⟩
        cases has
        cases hbs
        rfl

theorem entriesFromBytes_line {line : Bytes} {e : LedgerEntry} (hn : newline ∉ line)
    (hr : carriageReturn ∉ line) (hb : isBlank line = false)
    (hp : c.modelValidateJson line = some e) :
    entriesFromBytes c (line ++ [newline]) = .ok [e] := by
  simp [entriesFromBytes, splitlines_line hn hr, hb, hp]

@[simp] theorem tipHash_nil (prev : String) : tipHash prev [] = prev := rfl

theorem tipHash_cons (prev : String) (e : LedgerEntry) (es : List LedgerEntry) :
    tipHash prev (e :: es) = tipHash e.entryHash es := by
  cases es with
  | nil => rfl
  | cons e' es => simp [tipHash, List.getLast?_cons]

theorem tipHash_append (prev : String) (as bs : List LedgerEntry) :
    tipHash prev (as ++ bs) = tipHash (tipHash prev as) bs := by
  induction as generalizing prev with
  | nil => rfl
  | cons e es ih => rw [List.cons_append, tipHash_cons, tipHash_cons, ih]

/-- What `_verify_chain` asks of the entry at one position. -/
structure Linked (c : Codec) (position : Nat) (prevHash : String) (e : LedgerEntry) : Prop where
  seq : e.seq = position
  prevHash : e.prevHash = prevHash
  entryHash : computeEntryHash c e = some e.entryHash
  receipt : e.action = .closeReceipt → c.storeReceipt (withoutSig e.evidence) = true

theorem verifyChain_cons {n : Nat} {prev : String} {e : LedgerEntry} {es : List LedgerEntry} :
    verifyChain c n prev (e :: es) = .ok () ↔
      Linked c n prev e ∧ verifyChain c (n + 1) e.entryHash es = .ok () := by
  have hhash : computeEntryHash c { e with entryHash := "pending" } = computeEntryHash c e := rfl
  simp only [verifyChain, hhash]
  constructor
  · intro h
    split at h
    · cases h
    · rename_i hseq
      split at h
      · cases h
      · rename_i hprev
        split at h
        · cases h
        · rename_i hh
          split at h
          · cases h
          · rename_i hreceipt
            refine ⟨⟨not_not.mp hseq, not_not.mp hprev, not_not.mp hh, fun ha => ?_⟩, h⟩
            simpa using fun hf => hreceipt ⟨ha, hf⟩
  · rintro ⟨⟨hseq, hprev, hh, hreceipt⟩, h⟩
    rw [if_neg (not_not.mpr hseq), if_neg (not_not.mpr hprev), if_neg (not_not.mpr hh), if_neg, h]
    rintro ⟨ha, hf⟩
    rw [hreceipt ha] at hf
    cases hf

theorem verifyChain_append {n : Nat} {prev : String} {as bs : List LedgerEntry} :
    verifyChain c n prev (as ++ bs) = .ok () ↔ verifyChain c n prev as = .ok () ∧
      verifyChain c (n + as.length) (tipHash prev as) bs = .ok () := by
  induction as generalizing n prev with
  | nil => simp [verifyChain]
  | cons e es ih =>
    rw [List.cons_append, verifyChain_cons, verifyChain_cons, ih, tipHash_cons, and_assoc]
    simp only [List.length_cons, Nat.add_assoc, Nat.add_comm 1]

theorem scanChain_ok {n : Nat} {prev : String} {data : Bytes} {es : List LedgerEntry} :
    scanChain c n prev data = .ok es ↔
      entriesFromBytes c data = .ok es ∧ verifyChain c n prev es = .ok () := by
  unfold scanChain
  cases hes : entriesFromBytes c data with
  | error e => exact ⟨fun h => (by cases h), fun h => (by cases h.1)⟩
  | ok as =>
    cases hv : verifyChain c n prev as with
    | error e =>
      refine ⟨fun h => ?_, fun h => ?_⟩
      · simp only [bind, Except.bind, hv] at h
        cases h
      · cases h.1
        rw [hv] at h
        cases h.2
    | ok u =>
      simp only [bind, Except.bind, hv, pure, Except.pure, Except.ok.injEq]
      exact ⟨fun h => ⟨h, h ▸ hv⟩, fun h => h.1⟩

/-- A scan of a file is a scan of a terminated prefix and of what follows it. -/
theorem scanChain_append {n : Nat} {prev : String} {p s : Bytes} (hp : Terminated p)
    {es : List LedgerEntry} :
    scanChain c n prev (p ++ s) = .ok es ↔ ∃ as bs, scanChain c n prev p = .ok as ∧
      scanChain c (n + as.length) (tipHash prev as) s = .ok bs ∧ es = as ++ bs := by
  simp only [scanChain_ok, entriesFromBytes_append hp]
  constructor
  · rintro ⟨⟨as, bs, has, hbs, rfl⟩, hv⟩
    obtain ⟨hva, hvb⟩ := verifyChain_append.mp hv
    exact ⟨as, bs, ⟨has, hva⟩, ⟨hbs, hvb⟩, rfl⟩
  · rintro ⟨as, bs, ⟨has, hva⟩, ⟨hbs, hvb⟩, rfl⟩
    exact ⟨⟨as, bs, has, hbs, rfl⟩, verifyChain_append.mpr ⟨hva, hvb⟩⟩

/-- The file reads to its end, and its entries verify from the genesis hash on. -/
structure Verified (c : Codec) (file : Option Bytes) (es : List LedgerEntry) : Prop where
  readable : ∃ last n, readTail c file = .ok (last, n)
  terminated : Terminated (file.getD [])
  chain : scanChain c 0 genesisHash (file.getD []) = .ok es

theorem verify_full_iff (w : World) (h : HandleId) (rep : VerifyReport) :
    (verify c w h true).1 = .ok rep ↔ ∃ es, Verified c w.file es ∧
      rep = ⟨es.length, true, es.length, tipHash genesisHash es⟩ := by
  unfold verify
  constructor
  · intro hv
    split at hv
    · cases hv
    · rename_i last n htail
      split at hv
      · cases hv
      · rename_i hlen
        have hle : (w.file.getD []).length ≤ n := Nat.le_of_not_lt hlen
        have htake : w.raw.take n = w.raw := List.take_of_length_le hle
        simp only [usableSidecar, if_true, htake] at hv
        split at hv
        · cases hv
        · rename_i es hscan
          cases hv
          exact ⟨es, ⟨⟨last, n, htail⟩, (readTail_complete htail).mp hle, hscan⟩, rfl⟩
  · rintro ⟨es, ⟨⟨last, n, htail⟩, hterm, hscan⟩, rfl⟩
    have hle := (readTail_complete htail).mpr hterm
    have htake : w.raw.take n = w.raw := List.take_of_length_le hle
    have hlen : ¬ n < w.raw.length := Nat.not_lt.mpr hle
    have hscan' : scanChain c 0 genesisHash w.raw = .ok es := hscan
    simp only [htail, if_neg hlen, usableSidecar, if_true, htake, hscan']

/-- The evidence that the hook leaves, without its own stamp: JSON values only. -/
def jsonEvidence (key : Option Bytes) (evidence : Dict) : Bool :=
  isJsonDict (if key.isSome then withoutSig evidence else evidence)

theorem beforeAppend_some {key : Option Bytes} {draft d : LedgerEntry}
    (h : beforeAppend c key draft = some d) :
    ∃ ev, d = { draft with evidence := ev } ∧ withoutSig ev = withoutSig draft.evidence ∧
      isJsonDict ev = jsonEvidence key draft.evidence := by
  cases key with
  | none =>
    cases h
    exact ⟨draft.evidence, rfl, rfl, rfl⟩
  | some key =>
    simp only [beforeAppend, Option.map_eq_some_iff] at h
    obtain ⟨body, -, rfl⟩ := h
    refine ⟨_, rfl, ?_, ?_⟩
    · simp [withoutSig, sigField]
    · simp [isJsonDict_append, isJsonDict, Value.isJson, jsonEvidence]

/-- The entry that an append writes behind the tip `(seq, prevHash)`. -/
def writtenEntry (c : Codec) (args : AppendArgs) (seq : ℕ) (prevHash : String) :
    Option LedgerEntry := do
  let draft ← beforeAppend c args.key
    { seq, prevHash, entryHash := "pending", actor := args.actor, action := args.action
      target := args.target, evidence := args.evidence, at_ := args.at_ }
  let entryHash ← computeEntryHash c draft
  return { draft with entryHash }

/-- What is known of an entry that `append` has returned. -/
structure Appended (c : Codec) (w : World) (h : HandleId) (args : AppendArgs) (e : LedgerEntry)
    (w' : World) : Prop where
  tip : tipForAppend c w h = .ok (e.seq, e.prevHash)
  written : writtenEntry c args e.seq e.prevHash = some e
  action : e.action = args.action
  evidence : withoutSig e.evidence = withoutSig args.evidence
  isJson : isJsonDict e.evidence = jsonEvidence args.key args.evidence
  entryHash : computeEntryHash c e = some e.entryHash
  world : ∃ line, c.modelDumpJson e = some line ∧ w' = writeSidecar c
    (setTip { w with file := some (w.raw ++ (line ++ [newline])) } h (e.seq + 1, e.entryHash))
    (e.seq + 1) e.entryHash

theorem appendLocked_ok {w w' : World} {h : HandleId} {args : AppendArgs} {e : LedgerEntry}
    {fault : Option Fault} (happ : appendLocked c w h args fault = (.ok e, w')) :
    Appended c w h args e w' := by
  unfold appendLocked at happ
  split at happ
  · cases happ
  · rename_i seq prev htip
    dsimp only at happ
    split at happ
    · cases happ
    · rename_i entry line hwritten
      simp only [Option.bind_eq_bind, Option.bind_eq_some_iff, Option.pure_def, Option.some.injEq,
        Prod.mk.injEq] at hwritten
      obtain ⟨draft, hdraft, hash, hhash, text, htext, rfl, rfl⟩ := hwritten
      have hwritten : writtenEntry c args seq prev = some { draft with entryHash := hash } := by
        simp only [writtenEntry, hdraft, hhash, Option.bind_eq_bind, Option.bind_some,
          Option.pure_def]
      obtain ⟨ev, rfl, hev, hjson⟩ := beforeAppend_some hdraft
      have hworld : ∀ b t, setTip { setTip w h (seq, prev) with file := b } h t =
          setTip { w with file := b } h t := fun b t => by simp [setTip]
      split at happ
      · cases happ
      · cases happ
      · cases happ
        exact ⟨htip, hwritten, rfl, hev, hjson, hhash, text, htext, by rw [hworld]; rfl⟩

/-- An unsigned append, once its tip, its digest and its line are known. -/
theorem append_of {w : World} {h : HandleId} {args : AppendArgs} {seq : Nat} {prev hash : String}
    {line : Bytes} (hfence : args.fenceOk = true) (hkey : args.key = none)
    (htip : tipForAppend c w h = .ok (seq, prev))
    (hhash : computeEntryHash c ⟨seq, prev, "pending", args.actor, args.action, args.target,
      args.evidence, args.at_⟩ = some hash)
    (hline : c.modelDumpJson ⟨seq, prev, hash, args.actor, args.action, args.target,
      args.evidence, args.at_⟩ = some line) :
    append c w h args none =
      (.ok ⟨seq, prev, hash, args.actor, args.action, args.target, args.evidence, args.at_⟩,
        writeSidecar c
          (setTip { w with file := some (w.raw ++ (line ++ [newline])) } h (seq + 1, hash))
          (seq + 1) hash) := by
  have hworld : ∀ b t, setTip { setTip w h (seq, prev) with file := b } h t =
      setTip { w with file := b } h t := fun b t => by simp [setTip]
  simp only [append, hfence, if_true, appendLocked, htip, beforeAppend, hkey,
    Option.bind_eq_bind, Option.bind_some, hhash, hline, hworld, Option.pure_def]
  rfl

theorem append_ok {w w' : World} {h : HandleId} {args : AppendArgs} {e : LedgerEntry}
    {fault : Option Fault} (happ : append c w h args fault = (.ok e, w')) :
    Appended c w h args e w' := by
  unfold append at happ
  split at happ
  · exact appendLocked_ok happ
  · cases happ

/-- The line of an entry is one line, and is read back as the entry with its evidence in JSON
mode. -/
structure ReadsBack (c : Codec) (e : LedgerEntry) (line : Bytes) : Prop where
  isLine : isLine line = true
  readsBack : c.modelValidateJson line = some e.roundTrip

/-- The line that the arguments make behind the entries `es` is read back. pydantic does not read
back every line it writes: a nesting of 200 and an offset from UTC with seconds are refused. -/
def LineReadsBack (c : Codec) (args : AppendArgs) (es : List LedgerEntry) : Prop :=
  ∀ e line, writtenEntry c args es.length (tipHash genesisHash es) = some e →
    c.modelDumpJson e = some line → ReadsBack c e line

/-- One line holds one entry: the one it parses as. -/
theorem entriesFromBytes_line_iff {line : Bytes} {e : LedgerEntry} (hl : isLine line = true) :
    entriesFromBytes c (line ++ [newline]) = .ok [e] ↔ c.modelValidateJson line = some e := by
  obtain ⟨hn, hr, hb⟩ := isLine_iff.mp hl
  cases hp : c.modelValidateJson line with
  | none => simp [entriesFromBytes, splitlines_line hn hr, hb, hp]
  | some e' => simp [entriesFromBytes_line hn hr hb hp]

theorem verified_append_line {file : Option Bytes} {es : List LedgerEntry} {e : LedgerEntry}
    {line : Bytes} (hv : Verified c file es) (hl : ReadsBack c e line) :
    (∃ last n, readTail c (some (file.getD [] ++ (line ++ [newline]))) = .ok (last, n)) ∧
      entriesFromBytes c (file.getD [] ++ (line ++ [newline])) = .ok (es ++ [e.roundTrip]) ∧
      (verifyChain c 0 genesisHash (es ++ [e.roundTrip]) = .ok () ↔
        Linked c es.length (tipHash genesisHash es) e.roundTrip) := by
  obtain ⟨hes, hchain⟩ := scanChain_ok.mp hv.chain
  obtain ⟨hn, hr, hb⟩ := isLine_iff.mp hl.isLine
  refine ⟨⟨_, _, readTail_line hv.terminated hn hb hl.readsBack⟩, ?_, ?_⟩
  · exact (entriesFromBytes_append hv.terminated _).mpr ⟨es, [e.roundTrip], hes,
      entriesFromBytes_line hn hr hb hl.readsBack, rfl⟩
  · rw [verifyChain_append, verifyChain_cons]
    simp [hchain, verifyChain]

/-- The tip that `append` reads off the last line is that of the last entry, or it is
not trusted and the file is scanned again. -/
def TipRead (c : Codec) (w : World) (h : HandleId) (es : List LedgerEntry) : Prop :=
  ∀ last n, readTail c w.file = .ok (last, n) → trustsTail c w h (observedTip last) = true →
    observedTip last = (es.length, tipHash genesisHash es)

theorem tipForAppend_verified {w : World} {h : HandleId} {es : List LedgerEntry} {t : Nat × String}
    (hv : Verified c w.file es) (ht : tipForAppend c w h = .ok t) :
    t = (es.length, tipHash genesisHash es) ↔ TipRead c w h es := by
  obtain ⟨last, n, htail⟩ := hv.readable
  have hle : w.raw.length ≤ n := (readTail_complete htail).mpr hv.terminated
  have hes : entriesFromBytes c (w.raw.take n) = .ok es := by
    rw [List.take_of_length_le hle]
    exact (scanChain_ok.mp hv.chain).1
  simp only [tipForAppend, htail, bind, Except.bind, if_neg (Nat.not_lt.mpr hle)] at ht
  constructor
  · rintro rfl last' n' htail' htrust
    rw [htail] at htail'
    cases htail'
    rw [if_pos htrust] at ht
    exact Except.ok.inj ht
  · intro hread
    split at ht
    · rename_i htrust
      exact (Except.ok.inj ht).symm.trans (hread last n htail htrust)
    · simp only [hes, pure, Except.pure, Except.ok.injEq] at ht
      exact ht.symm

/-- Full verification of the file passes with exactly one more entry, and that entry
reads as the one returned, under its own hash. -/
def AppendAccepted (c : Codec) (w' : World) (h : HandleId) (es : List LedgerEntry)
    (e : LedgerEntry) : Prop :=
  (∃ rep, (verify c w' h true).1 = .ok rep ∧ rep.entries = es.length + 1) ∧
    entriesFromBytes c w'.raw = .ok (es ++ [e]) ∧ computeEntryHash c e = some e.entryHash

theorem appended_file {w w' : World} {h : HandleId} {args : AppendArgs} {e : LedgerEntry}
    (ha : Appended c w h args e w') :
    ∃ line, c.modelDumpJson e = some line ∧ w'.file = some (w.raw ++ (line ++ [newline])) := by
  obtain ⟨line, hline, rfl⟩ := ha.world
  exact ⟨line, hline, rfl⟩

/-- Where the tip was not misread, the entry that is returned is the one that the arguments make
behind the entries of the file. -/
theorem writtenEntry_of_tipRead {w w' : World} {h : HandleId} {args : AppendArgs} {e : LedgerEntry}
    {es : List LedgerEntry} (ha : Appended c w h args e w') (hv : Verified c w.file es)
    (htip : TipRead c w h es) :
    writtenEntry c args es.length (tipHash genesisHash es) = some e := by
  have hread := (tipForAppend_verified hv ha.tip).mpr htip
  rw [Prod.mk.injEq] at hread
  rw [← hread.1, ← hread.2]
  exact ha.written

/-- Such an append to a ledger that verifies is accepted. -/
theorem accepted_of_verified {w w' : World} {h : HandleId} {args : AppendArgs} {e : LedgerEntry}
    {es : List LedgerEntry} (hv : Verified c w.file es)
    (happ : append c w h args none = (.ok e, w'))
    (hev : jsonEvidence args.key args.evidence = true)
    (hreceipt : args.action = .closeReceipt → c.storeReceipt (withoutSig args.evidence) = true)
    (htip : TipRead c w h es) (hreads : LineReadsBack c args es) : AppendAccepted c w' h es e := by
  have ha := append_ok happ
  obtain ⟨line, hdump, hfile⟩ := appended_file ha
  have hraw : w'.raw = w.raw ++ (line ++ [newline]) := by simp [World.raw, hfile]
  have hback : e.roundTrip = e := by
    have hd := (jsonModeDict_eq_iff e.evidence).mpr (ha.isJson.trans hev)
    simp only [LedgerEntry.roundTrip, hd]
  obtain ⟨hread, hentries, hchain⟩ := verified_append_line hv
    (hreads e line (writtenEntry_of_tipRead ha hv htip) hdump)
  rw [hback] at hentries hchain
  have htip' := (tipForAppend_verified hv ha.tip).mpr htip
  simp only [Prod.mk.injEq] at htip'
  have hlinked : Linked c es.length (tipHash genesisHash es) e :=
    ⟨htip'.1, htip'.2, ha.entryHash, fun hact => by
      rw [ha.evidence]
      exact hreceipt (ha.action.symm.trans hact)⟩
  have hscan : scanChain c 0 genesisHash (w'.file.getD []) = .ok (es ++ [e]) := by
    rw [hfile, Option.getD_some]
    exact scanChain_ok.mpr ⟨hentries, hchain.mpr hlinked⟩
  have hv' : Verified c w'.file (es ++ [e]) :=
    ⟨hfile ▸ hread, by rw [hfile]; exact terminated_append_line _ _, hscan⟩
  refine ⟨⟨_, (verify_full_iff w' h _).mpr ⟨_, hv', rfl⟩, ?_⟩, ?_, ha.entryHash⟩
  · simp
  · rw [hraw]
    exact hentries

theorem accepted_iff_of_verified {w w' : World} {h : HandleId} {args : AppendArgs} {e : LedgerEntry}
    {es : List LedgerEntry} (hv : Verified c w.file es)
    (happ : append c w h args none = (.ok e, w'))
    (hline : ∀ line, c.modelDumpJson e = some line → isLine line = true)
    (hvalues : ∀ line e', c.modelDumpJson e = some line → c.modelValidateJson line = some e' →
      isJsonDict e'.evidence = true) :
    AppendAccepted c w' h es e ↔
      jsonEvidence args.key args.evidence = true ∧
      (args.action = .closeReceipt → c.storeReceipt (withoutSig args.evidence) = true) ∧
      TipRead c w h es ∧ LineReadsBack c args es := by
  have ha := append_ok happ
  obtain ⟨line, hdump, hfile⟩ := appended_file ha
  have hl := hline line hdump
  have hraw : w'.raw = w.raw ++ (line ++ [newline]) := by simp [World.raw, hfile]
  constructor
  · rintro ⟨⟨rep, hrep, -⟩, hes, -⟩
    have hparse : c.modelValidateJson line = some e := by
      rw [hraw] at hes
      obtain ⟨as, bs, has, hbs, heq⟩ := (entriesFromBytes_append hv.terminated _).mp hes
      cases (scanChain_ok.mp hv.chain).1.symm.trans has
      cases List.append_cancel_left heq
      exact (entriesFromBytes_line_iff hl).mp hbs
    have hev := hvalues line e hdump hparse
    have hback : e.roundTrip = e := by
      simp only [LedgerEntry.roundTrip, (jsonModeDict_eq_iff e.evidence).mpr hev]
    have hreads : ReadsBack c e line := ⟨hl, by rw [hback, hparse]⟩
    obtain ⟨-, hentries, hchain⟩ := verified_append_line hv hreads
    obtain ⟨es', hv', -⟩ := (verify_full_iff w' h rep).mp hrep
    have hes' := scanChain_ok.mp hv'.chain
    rw [hfile, Option.getD_some] at hes'
    have hlinked : Linked c es.length (tipHash genesisHash es) e := by
      have heq := hentries.symm.trans hes'.1
      cases heq
      rw [← hback]
      exact hchain.mp hes'.2
    have htip : TipRead c w h es := by
      rw [← tipForAppend_verified hv ha.tip, hlinked.seq, hlinked.prevHash]
    refine ⟨ha.isJson ▸ hev, fun hact => ?_, htip, fun e' line' hwritten hdump' => ?_⟩
    · rw [← ha.evidence]
      exact hlinked.receipt (ha.action.trans hact)
    · cases (writtenEntry_of_tipRead ha hv htip).symm.trans hwritten
      cases hdump.symm.trans hdump'
      exact hreads
  · rintro ⟨hev, hreceipt, htip, hreads⟩
    exact accepted_of_verified hv happ hev hreceipt htip hreads

theorem verified_of_verify {w : World} {h : HandleId} {rep : VerifyReport} {es : List LedgerEntry}
    (hv : (verify c w h true).1 = .ok rep) (hes : entriesFromBytes c w.raw = .ok es) :
    Verified c w.file es := by
  obtain ⟨es', hv', -⟩ := (verify_full_iff w h rep).mp hv
  have heq := (scanChain_ok.mp hv'.chain).1.symm.trans hes
  cases heq
  exact hv'

/-- On a ledger that verifies, an append is accepted exactly when the evidence holds
JSON values only, a closing receipt is a store receipt, the tip was not misread, and the line
that is written there is read back. -/
theorem append_accepted_iff {w w' : World} {h : HandleId} {args : AppendArgs} {e : LedgerEntry}
    {es : List LedgerEntry} {rep : VerifyReport} (hv : (verify c w h true).1 = .ok rep)
    (hes : entriesFromBytes c w.raw = .ok es) (happ : append c w h args none = (.ok e, w'))
    (hline : ∀ line, c.modelDumpJson e = some line → isLine line = true)
    (hvalues : ∀ line e', c.modelDumpJson e = some line → c.modelValidateJson line = some e' →
      isJsonDict e'.evidence = true) :
    AppendAccepted c w' h es e ↔
      jsonEvidence args.key args.evidence = true ∧
      (args.action = .closeReceipt → c.storeReceipt (withoutSig args.evidence) = true) ∧
      TipRead c w h es ∧ LineReadsBack c args es :=
  accepted_iff_of_verified (verified_of_verify hv hes) happ hline hvalues

/-- The first entry of a ledger, with one score as its evidence. -/
def scoreArgs (action : LedgerAction) : AppendArgs where
  actor := "engine"
  action := action
  target := "skill-1"
  evidence := [("score", .int 1)]
  at_ := "2026-01-01T00:00:00Z"

def scoreEntry (action : LedgerAction) (hash : String) : LedgerEntry where
  seq := 0
  prevHash := genesisHash
  entryHash := hash
  actor := "engine"
  action := action
  target := "skill-1"
  evidence := [("score", .int 1)]
  at_ := "2026-01-01T00:00:00Z"

def scoreLine (action : LedgerAction) (hash : String) : Bytes :=
  ("\x7b\"seq\":0,\"prev_hash\":\"" ++ genesisHash ++ "\",\"entry_hash\":\"" ++ hash ++
    "\",\"actor\":\"engine\",\"action\":\"" ++ action.literal ++ "\",\"target\":\"skill-1\"," ++
    "\"evidence\":\x7b\"score\":1\x7d,\"at\":\"2026-01-01T00:00:00Z\"\x7d").toUTF8.data.toList

/-- The digest and the line of one such entry. Its evidence is no store receipt. -/
def scoreCodec (action : LedgerAction) (hash : String) : Codec where
  sha256 := fun _ => hash
  hmacSha256 := fun _ _ => ""
  modelValidateJson := fun b =>
    if b = scoreLine action hash then some (scoreEntry action hash) else none
  modelDumpJson := fun _ => some (scoreLine action hash)
  storeReceipt := fun _ => false

theorem scoreCodec_validate (action : LedgerAction) (hash : String) :
    (scoreCodec action hash).modelValidateJson (scoreLine action hash) =
      some (scoreEntry action hash) := if_pos rfl

theorem scoreCodec_reads (action : LedgerAction) (hash : String) (line : Bytes) (e : LedgerEntry)
    (hd : (scoreCodec action hash).modelDumpJson (scoreEntry action hash) = some line)
    (he : (scoreCodec action hash).modelValidateJson line = some e) : e = scoreEntry action hash := by
  cases hd
  exact Option.some.inj (he.symm.trans (scoreCodec_validate action hash))

theorem append_score (action : LedgerAction) (hash : String) :
    ∃ w', append (scoreCodec action hash) (start "ledger.jsonl" none) 0 (scoreArgs action) none =
      (.ok (scoreEntry action hash), w') := by
  have htip : tipForAppend (scoreCodec action hash) (start "ledger.jsonl" none) 0 =
      .ok (0, genesisHash) := rfl
  have hhash : computeEntryHash (scoreCodec action hash) (scoreEntry action "pending") =
      some hash := by
    simp [computeEntryHash, canonicalBytes, scoreEntry, dumpableDict, Value.dumpable, scoreCodec]
  exact ⟨_, append_of rfl rfl htip hhash rfl⟩

def writeHash : String := "50c40a8d8c51c9348185af15eb2071b63c34e67e9feace61dec42c9f532add0c"

theorem append_write_accepted :
    ∃ w', AppendAccepted (scoreCodec .write writeHash) w' 0 [] (scoreEntry .write writeHash) := by
  obtain ⟨w', happ⟩ := append_score .write writeHash
  have hl : isLine (scoreLine .write writeHash) = true := by decide +kernel
  refine ⟨w', (append_accepted_iff rfl rfl happ (fun line hd => by cases hd; exact hl)
    fun line e hd he => by rw [scoreCodec_reads _ _ _ _ hd he]; rfl).mpr
    ⟨rfl, fun h => (by cases h), fun _ _ _ ht => (by cases ht), fun e line hw hd => ?_⟩⟩
  cases hd
  obtain rfl : scoreEntry .write writeHash = e :=
    Option.some.inj ((append_ok happ).written.symm.trans hw)
  exact ⟨hl, scoreCodec_validate .write writeHash⟩

def closeHash : String := "ae62c5ec5c25185b0c735953c9c7a56c81edf95acc79c459ece62259c7d60dc2"

/-- `append` does not ask what verification asks of a closing receipt. -/
theorem append_close_rejected :
    (verify (scoreCodec .closeReceipt closeHash) (start "ledger.jsonl" none) 0 true).1 =
        .ok ⟨0, true, 0, genesisHash⟩ ∧
    ∃ w', append (scoreCodec .closeReceipt closeHash) (start "ledger.jsonl" none) 0
        (scoreArgs .closeReceipt) none = (.ok (scoreEntry .closeReceipt closeHash), w') ∧
      ¬ AppendAccepted (scoreCodec .closeReceipt closeHash) w' 0 []
        (scoreEntry .closeReceipt closeHash) := by
  obtain ⟨w', happ⟩ := append_score .closeReceipt closeHash
  refine ⟨rfl, w', happ, fun h => ?_⟩
  have hv : Verified (scoreCodec .closeReceipt closeHash) (start "ledger.jsonl" none).file [] :=
    ⟨⟨_, _, rfl⟩, Or.inl rfl, rfl⟩
  have hreceipt := ((accepted_iff_of_verified hv happ
    (fun line hd => by cases hd; exact (by decide +kernel : isLine (scoreLine .closeReceipt
      closeHash) = true))
    fun line e hd he => by rw [scoreCodec_reads _ _ _ _ hd he]; rfl).mp h).2.1 rfl
  cases hreceipt

end Recertia.Ledger
