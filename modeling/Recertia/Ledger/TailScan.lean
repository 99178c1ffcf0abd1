import Mathlib.Algebra.Ring.Nat
import Recertia.Ledger.Repair

/-! `read_tail` against one pass over the whole file: they agree unless the window stops, at two
newlines, behind the start of the last line that is not blank. -/
namespace Recertia.Ledger
open Lines
variable {c : Codec}

/-- One pass over the records: the last line that is not blank, and where the complete lines end. -/
def forwardScan (last : Option Bytes) (offset : ℕ) : List Bytes → Option Bytes × ℕ
  | [] => (last, offset)
  | [_] => (last, offset)
  | line :: next :: more =>
    forwardScan (if isBlank line then last else some line) (offset + line.length + 1) (next :: more)

def parseTail (c : Codec) (line : Option Bytes) (completeLen : ℕ) :
    Except LedgerError (Option LedgerEntry × ℕ) :=
  match line with
  | none => .ok (none, completeLen)
  | some line =>
    match c.modelValidateJson line with
    | none => .error (.unavailable .lineDoesNotParse)
    | some e => .ok (some e, completeLen)

/-- The last complete line and the length of the complete lines, from a scan of the whole file. -/
def scanTail (c : Codec) (file : Option Bytes) : Except LedgerError (Option LedgerEntry × ℕ) :=
  parseTail c (forwardScan none 0 (records (file.getD []))).1
    (forwardScan none 0 (records (file.getD []))).2

/-- `read_tail` is the forward scan, whatever the lines are parsed to. -/
def FindsLastRecord (file : Option Bytes) : Prop := ∀ c, readTail c file = scanTail c file

/-- The bytes that `read_tail` has read after `passes` passes. -/
def windowBytes (passes : ℕ) : ℕ := (2 ^ passes - 1) * tailWindow

/-- The last `n` bytes. -/
def lastBytes (raw : Bytes) (n : ℕ) : Bytes := raw.drop (raw.length - n)

/-- The last line that is not blank, with its newline and all that follows, fits into every window
that is shorter than the file and holds two newlines. -/
def LastLineInWindow (raw : Bytes) : Prop :=
  ∀ before line after, raw = before ++ (line ++ newline :: after) → Terminated before →
    newline ∉ line → isBlank line = false → isBlank (complete after) = true →
      ∀ passes, windowBytes passes < raw.length →
        2 ≤ (lastBytes raw (windowBytes passes)).count newline →
          (line ++ newline :: after).length ≤ windowBytes passes

theorem rest_length_le (raw : Bytes) : (rest raw).length ≤ raw.length := by
  have hsplit := congrArg List.length (complete_append_rest raw)
  rw [List.length_append] at hsplit
  omega

theorem tailLine_line {line : Bytes} (after : Bytes) (h : newline ∉ line) :
    tailLine (line ++ newline :: after) =
      (tailLine after).or (if isBlank line then none else some line) := by
  unfold tailLine
  rw [records_append_newline, records_of_not_mem h,
    List.dropLast_append_of_ne_nil (records_ne_nil after), List.reverse_append, List.find?_append]
  by_cases hb : isBlank line
  · simp [hb]
  · simp [hb]

theorem rest_line {line after : Bytes} : rest (line ++ newline :: after) = rest after := by
  unfold rest
  rw [records_append_newline, List.getLast?_append_of_ne_nil _ (records_ne_nil after)]

theorem forwardScan_records (rs : List Bytes) (raw : Bytes) (h : records raw = rs)
    (last : Option Bytes) (offset : ℕ) :
    forwardScan last offset rs =
      ((tailLine raw).or last, offset + (raw.length - (rest raw).length)) := by
  induction rs generalizing raw last offset with
  | nil => exact absurd h (records_ne_nil raw)
  | cons line more ih =>
    rcases records_split h with ⟨rfl, rfl, hmem⟩ | ⟨after, rfl, hline, hafter⟩
    · rw [forwardScan, rest_of_not_mem hmem, tailLine, h]
      simp
    · cases more with
      | nil => exact absurd hafter (records_ne_nil after)
      | cons next more =>
        have hle := rest_length_le after
        rw [forwardScan, ih after hafter, tailLine_line _ hline, rest_line]
        refine Prod.ext ?_ ?_
        · dsimp only
          rw [Option.or_assoc]
          congr 1
          by_cases hb : isBlank line
          · simp [hb]
          · simp [hb]
        · dsimp only
          rw [List.length_append, List.length_cons]
          omega

theorem scanTail_eq (file : Option Bytes) :
    scanTail c file = parseTail c (tailLine (file.getD []))
      ((file.getD []).length - (rest (file.getD [])).length) := by
  unfold scanTail
  rw [forwardScan_records _ _ rfl]
  simp

/-- `read_tail` parses the last line of its window that is not blank. -/
theorem readTail_eq (file : Option Bytes) :
    readTail c file = parseTail c (tailLine (tailData (file.getD [])))
      ((file.getD []).length - (rest (file.getD [])).length) := by
  unfold readTail
  dsimp only
  rw [← tailData]
  split
  · rename_i hmem
    rw [rest_tailData _ hmem]
    rfl
  · rename_i hmem
    have hnone : tailLine (tailData (file.getD [])) = none := by
      rw [tailLine, records_of_not_mem hmem]
      rfl
    rw [hnone, rest_of_not_mem_tailData hmem, Nat.sub_self]
    rfl

/-- A parser that accepts one line. -/
def onlyCodec (line : Bytes) : Codec where
  sha256 := fun _ => ""
  hmacSha256 := fun _ _ => ""
  modelValidateJson := fun b =>
    if b = line then
      some { seq := 0, prevHash := genesisHash, entryHash := "", actor := "cli"
             action := .ledgerRepaired, target := "", evidence := [], at_ := "" }
    else none
  modelDumpJson := fun _ => none
  storeReceipt := fun _ => false

/-- Lines that no parser tells apart are equal. -/
theorem parseTail_inj {l l' : Option Bytes} {n : ℕ} :
    (∀ c, parseTail c l n = parseTail c l' n) ↔ l = l' := by
  constructor
  · intro h
    cases l with
    | none =>
      cases l' with
      | none => rfl
      | some b =>
        have hb := h (onlyCodec b)
        simp [parseTail, onlyCodec] at hb
    | some a =>
      have ha := h (onlyCodec a)
      cases l' with
      | none => simp [parseTail, onlyCodec] at ha
      | some b =>
        by_cases hab : b = a
        · rw [hab]
        · simp [parseTail, onlyCodec, hab] at ha
  · rintro rfl c
    rfl

theorem tailLine_eq_none_iff (raw : Bytes) :
    tailLine raw = none ↔ isBlank (complete raw) = true := by
  obtain ⟨p, s, rfl, hp, hs⟩ := exists_complete raw
  rw [complete_append hp hs]
  rcases hp with rfl | ⟨q, rfl⟩
  · rw [List.nil_append, tailLine, records_of_not_mem hs]
    simp [isBlank]
  · have hnewline : isSpace newline = true := by decide
    have hblank : isBlank (q ++ [newline]) = isBlank q := by
      simp [isBlank, hnewline]
    rw [hblank, ← isBlank_records, tailLine, List.append_assoc, List.singleton_append,
      records_append_newline, records_of_not_mem hs, List.dropLast_concat, List.find?_eq_none]
    simp

/-- What is behind the last line that is not blank, is not found either from further back. -/
theorem tailLine_drop_none {after : Bytes} (h : isBlank (complete after) = true) (n : ℕ) :
    tailLine (after.drop n) = none := by
  rw [tailLine_eq_none_iff]
  obtain ⟨p, s, rfl, hp, hs⟩ := exists_complete after
  rw [complete_append hp hs] at h
  rw [List.drop_append]
  have hrest : newline ∉ s.drop (n - p.length) := fun hmem => hs (List.mem_of_mem_drop hmem)
  rw [complete_append (terminated_drop hp n) hrest]
  rw [isBlank, List.all_eq_true] at h ⊢
  exact fun b hb => h b (List.mem_of_mem_drop hb)

theorem tailLine_append {before line after : Bytes} (hbefore : Terminated before)
    (hline : newline ∉ line) (hb : isBlank line = false)
    (hafter : isBlank (complete after) = true) :
    tailLine (before ++ (line ++ newline :: after)) = some line := by
  have hnone : tailLine after = none := (tailLine_eq_none_iff after).mpr hafter
  rcases hbefore with rfl | ⟨q, rfl⟩
  · rw [List.nil_append, tailLine_line _ hline, hnone, hb]
    rfl
  · unfold tailLine
    rw [List.append_assoc, List.singleton_append, records_append_newline,
      List.dropLast_append_of_ne_nil (records_ne_nil _), List.reverse_append, List.find?_append]
    have hfound := tailLine_line after hline
    rw [tailLine, hnone, hb] at hfound
    rw [hfound]
    rfl

/-- A file with a line that is not blank has a last one. -/
theorem exists_last_line {raw line : Bytes} (h : tailLine raw = some line) :
    ∃ before after, raw = before ++ (line ++ newline :: after) ∧ Terminated before ∧
      newline ∉ line ∧ isBlank line = false ∧ isBlank (complete after) = true := by
  generalize hrs : records raw = rs
  induction rs generalizing raw with
  | nil => exact absurd hrs (records_ne_nil raw)
  | cons r rs ih =>
    rcases records_split hrs with ⟨-, -, hmem⟩ | ⟨more, rfl, hr, hmore⟩
    · rw [tailLine, records_of_not_mem hmem] at h
      cases h
    · rw [tailLine_line _ hr] at h
      cases hnext : tailLine more with
      | some found =>
        rw [hnext] at h
        obtain rfl : found = line := Option.some.inj h
        obtain ⟨before, after, rfl, hbefore, hrest⟩ := ih hnext hmore
        refine ⟨r ++ newline :: before, after, by simp, ?_, hrest⟩
        rcases hbefore with rfl | ⟨q, rfl⟩
        · exact Or.inr ⟨r, rfl⟩
        · exact Or.inr ⟨r ++ newline :: q, by simp⟩
      | none =>
        rw [hnext, Option.none_or] at h
        by_cases hb : isBlank r
        · simp [hb] at h
        · simp only [hb, Bool.false_eq_true, if_false, Option.some.injEq] at h
          subst h
          exact ⟨[], more, rfl, Or.inl rfl, hr, by simpa using hb,
            (tailLine_eq_none_iff more).mp hnext⟩

theorem windowBytes_succ (k : ℕ) : windowBytes (k + 1) = windowBytes k + 2 ^ k * tailWindow := by
  have hpos : 1 ≤ 2 ^ k := Nat.one_le_two_pow
  have hdouble : 2 ^ (k + 1) - 1 = (2 ^ k - 1) + 2 ^ k := by
    rw [Nat.pow_succ]
    omega
  unfold windowBytes
  rw [hdouble, Nat.add_mul]

theorem windowBytes_mono {k j : ℕ} (h : k ≤ j) : windowBytes k ≤ windowBytes j := by
  have hpow : 2 ^ k ≤ 2 ^ j := Nat.pow_le_pow_right (by decide) h
  unfold windowBytes
  exact Nat.mul_le_mul_right _ (by omega)

theorem le_windowBytes (k : ℕ) : k ≤ windowBytes k := by
  have hpow : k < 2 ^ k := Nat.lt_two_pow_self
  have hwindow : 1 ≤ tailWindow := by decide
  calc
    k ≤ 2 ^ k - 1 := by omega
    _ = (2 ^ k - 1) * 1 := (Nat.mul_one _).symm
    _ ≤ windowBytes k := Nat.mul_le_mul_left _ hwindow

/-- Whether the window of some passes ends the loop before it covers the file. -/
def StopsAt (raw : Bytes) (passes : ℕ) : Prop :=
  windowBytes passes < raw.length ∧ 2 ≤ (lastBytes raw (windowBytes passes)).count newline

/-- From pass `k` on, the loop ends at the first window that holds two newlines, else with the
whole file. -/
theorem tailStart_window (raw : Bytes) (fuel k : ℕ) :
    (tailStart raw fuel (raw.length - windowBytes k) (2 ^ k * tailWindow) = 0 ∧
      ∀ j, k < j → j ≤ k + fuel → ¬ StopsAt raw j) ∨
    ∃ j, k < j ∧ tailStart raw fuel (raw.length - windowBytes k) (2 ^ k * tailWindow) =
      raw.length - windowBytes j ∧ StopsAt raw j ∧ ∀ i, k < i → i < j → ¬ StopsAt raw i := by
  induction fuel generalizing k with
  | zero => exact Or.inl ⟨rfl, fun j hk hj => by omega⟩
  | succ fuel ih =>
    have hstart : raw.length - windowBytes k - 2 ^ k * tailWindow =
        raw.length - windowBytes (k + 1) := by
      rw [windowBytes_succ, Nat.sub_sub]
    have hdouble : 2 ^ k * tailWindow * 2 = 2 ^ (k + 1) * tailWindow := by
      rw [Nat.pow_succ, Nat.mul_right_comm]
    have hbelow (i : ℕ) (hi : k < i) (hne : i ≠ k + 1) : k + 1 < i := by omega
    simp only [tailStart, hstart, hdouble]
    by_cases hwhole : raw.length ≤ windowBytes (k + 1)
    · have hzero : raw.length - windowBytes (k + 1) = 0 := Nat.sub_eq_zero_of_le hwhole
      rw [if_pos (Or.inr hzero)]
      refine Or.inl ⟨hzero, fun j hk _ hstop => ?_⟩
      have hmono := windowBytes_mono (show k + 1 ≤ j from hk)
      have hlt := hstop.1
      omega
    · have hne : raw.length - windowBytes (k + 1) ≠ 0 := by omega
      by_cases hcount : 2 ≤ (raw.drop (raw.length - windowBytes (k + 1))).count newline
      · rw [if_pos (Or.inl hcount)]
        refine Or.inr ⟨k + 1, by omega, rfl, ⟨by omega, hcount⟩, fun i hi hj => by omega⟩
      · rw [if_neg (not_or.mpr ⟨hcount, hne⟩)]
        have hfirst : ¬ StopsAt raw (k + 1) := fun hstop => hcount hstop.2
        rcases ih (k + 1) with ⟨hzero, hnone⟩ | ⟨j, hj, heq, hstop, hnone⟩
        · refine Or.inl ⟨hzero, fun j hk hle => ?_⟩
          by_cases hjk : j = k + 1
          · rwa [hjk]
          · exact hnone j (hbelow j hk hjk) (by omega)
        · refine Or.inr ⟨j, by omega, heq, hstop, fun i hi hij => ?_⟩
          by_cases hik : i = k + 1
          · rwa [hik]
          · exact hnone i (hbelow i hi hik) hij

theorem not_stopsAt_zero (raw : Bytes) : ¬ StopsAt raw 0 := by
  rintro ⟨-, hcount⟩
  simp [windowBytes, lastBytes] at hcount

/-- Where the data of `read_tail` starts. -/
theorem tailStart_first (raw : Bytes) :
    (tailStart raw raw.length raw.length tailWindow = 0 ∧ ∀ j, ¬ StopsAt raw j) ∨
    ∃ j, tailStart raw raw.length raw.length tailWindow = raw.length - windowBytes j ∧
      StopsAt raw j ∧ ∀ i, i < j → ¬ StopsAt raw i := by
  have hzero : windowBytes 0 = 0 := by simp [windowBytes]
  have hcases := tailStart_window raw raw.length 0
  rw [hzero, Nat.sub_zero, Nat.pow_zero, Nat.one_mul] at hcases
  rcases hcases with ⟨hstart, hnone⟩ | ⟨j, -, hstart, hstop, hnone⟩
  · refine Or.inl ⟨hstart, fun j hstop => ?_⟩
    rcases Nat.eq_zero_or_pos j with rfl | hpos
    · exact not_stopsAt_zero raw hstop
    · -- As many passes as the file has bytes cover it.
      have hle : j ≤ raw.length := by
        have hwindow := le_windowBytes j
        have hlt := hstop.1
        omega
      exact hnone j hpos (by omega) hstop
  · refine Or.inr ⟨j, hstart, hstop, fun i hij hi => ?_⟩
    rcases Nat.eq_zero_or_pos i with rfl | hpos
    · exact not_stopsAt_zero raw hi
    · exact hnone i hpos hij hi

/-- The data reaches back over the first `n` bytes exactly if every window that can end the loop
holds the rest. -/
theorem tailStart_le_iff (raw : Bytes) {n : ℕ} (hn : n ≤ raw.length) :
    tailStart raw raw.length raw.length tailWindow ≤ n ↔
      ∀ j, StopsAt raw j → raw.length - n ≤ windowBytes j := by
  rcases tailStart_first raw with ⟨hstart, hnone⟩ | ⟨j, hstart, hstop, hnone⟩
  · rw [hstart]
    exact ⟨fun _ j hj => absurd hj (hnone j), fun _ => Nat.zero_le n⟩
  · rw [hstart]
    constructor
    · intro hle i hi
      have hij : j ≤ i := by
        by_contra hlt
        exact hnone i (by omega) hi
      have hmono := windowBytes_mono hij
      omega
    · intro h
      have hfits := h j hstop
      omega

/-- Data that starts behind the first byte of the last line that is not blank misses it. -/
theorem tailLine_drop_iff {before line after : Bytes} (hbefore : Terminated before)
    (hline : newline ∉ line) (hb : isBlank line = false) (hafter : isBlank (complete after) = true)
    (n : ℕ) :
    tailLine ((before ++ (line ++ newline :: after)).drop n) = some line ↔ n ≤ before.length := by
  constructor
  · intro hfound
    by_contra hlt
    have hskip : (before ++ (line ++ newline :: after)).drop n =
        (line ++ newline :: after).drop (n - before.length) := by
      rw [List.drop_append, List.drop_eq_nil_of_le (by omega), List.nil_append]
    rw [hskip] at hfound
    rcases Nat.lt_or_ge line.length (n - before.length) with hpast | hinside
    · have hrest : (line ++ newline :: after).drop (n - before.length) =
          after.drop (n - before.length - line.length - 1) := by
        rw [List.drop_append, List.drop_eq_nil_of_le (by omega), List.nil_append]
        obtain ⟨k, hk⟩ : ∃ k, n - before.length - line.length = k + 1 :=
          ⟨n - before.length - line.length - 1, by omega⟩
        rw [hk, List.drop_succ_cons, Nat.add_sub_cancel]
      rw [hrest, tailLine_drop_none hafter] at hfound
      cases hfound
    · have hcut : (line ++ newline :: after).drop (n - before.length) =
          line.drop (n - before.length) ++ newline :: after := by
        rw [List.drop_append, Nat.sub_eq_zero_of_le hinside, List.drop_zero]
      have hshort : newline ∉ line.drop (n - before.length) :=
        fun hmem => hline (List.mem_of_mem_drop hmem)
      rw [hcut, tailLine_line _ hshort, (tailLine_eq_none_iff after).mpr hafter,
        Option.none_or] at hfound
      by_cases hblank : isBlank (line.drop (n - before.length))
      · simp [hblank] at hfound
      · simp only [hblank, Bool.false_eq_true, if_false, Option.some.injEq] at hfound
        -- A line that starts later is a shorter one.
        have hlength := congrArg List.length hfound
        rw [List.length_drop] at hlength
        have hpos : 1 ≤ line.length := by
          cases line with
          | nil => simp [isBlank] at hb
          | cons b bs => simp
        omega
  · intro hle
    rw [List.drop_append, Nat.sub_eq_zero_of_le hle, List.drop_zero]
    exact tailLine_append (terminated_drop hbefore n) hline hb hafter

theorem findsLastRecord_lines (file : Option Bytes) :
    FindsLastRecord file ↔ tailLine (tailData (file.getD [])) = tailLine (file.getD []) := by
  unfold FindsLastRecord
  simp only [readTail_eq, scanTail_eq]
  exact parseTail_inj

/-- `read_tail` is the forward scan exactly if its window holds the last line that is not blank. -/
theorem findsLastRecord_iff (file : Option Bytes) :
    FindsLastRecord file ↔ LastLineInWindow (file.getD []) := by
  rw [findsLastRecord_lines]
  generalize file.getD [] = raw
  constructor
  · intro hsame before line after hsplit hbefore hline hb hafter passes hlt hcount
    subst hsplit
    rw [tailLine_append hbefore hline hb hafter] at hsame
    have hle := (tailLine_drop_iff hbefore hline hb hafter _).mp hsame
    have hfits := (tailStart_le_iff _ (by simp)).mp hle passes ⟨hlt, hcount⟩
    rw [List.length_append, Nat.add_sub_cancel_left] at hfits
    exact hfits
  · intro hwindow
    cases hlast : tailLine raw with
    | none => exact tailLine_drop_none ((tailLine_eq_none_iff raw).mp hlast) _
    | some line =>
      obtain ⟨before, after, rfl, hbefore, hline, hb, hafter⟩ := exists_last_line hlast
      apply (tailLine_drop_iff hbefore hline hb hafter _).mpr
      apply (tailStart_le_iff _ (by simp)).mpr
      rintro j ⟨hlt, hcount⟩
      rw [List.length_append, Nat.add_sub_cancel_left]
      exact hwindow before line after rfl hbefore hline hb hafter j hlt hcount

/-- A record as long as the first window, with an empty line behind it. -/
def longRecord : Bytes := List.replicate tailWindow 123 ++ newline :: [newline]

theorem not_findsLastRecord_longRecord : ¬ FindsLastRecord (some longRecord) := by
  rw [findsLastRecord_lines, Option.getD_some]
  have hline : newline ∉ List.replicate tailWindow (123 : UInt8) := by
    intro hmem
    have heq := List.eq_of_mem_replicate hmem
    revert heq
    decide
  have hb : isBlank (List.replicate tailWindow (123 : UInt8)) = false := by
    have hsucc : tailWindow = 1048575 + 1 := rfl
    rw [hsucc, List.replicate_succ, isBlank, List.all_cons]
    rfl
  have hafter : isBlank (complete [newline]) = true := by decide
  have hwhole : longRecord = [] ++ (List.replicate tailWindow 123 ++ newline :: [newline]) := rfl
  have hlength : longRecord.length = tailWindow + 2 := by simp [longRecord]
  have hfirst : windowBytes 1 = tailWindow := by simp [windowBytes]
  -- The first window starts at the third byte of the record and holds both newlines.
  have hstop : StopsAt longRecord 1 := by
    refine ⟨by omega, ?_⟩
    rw [hfirst, lastBytes, hlength, Nat.add_sub_cancel_left, longRecord, List.drop_append,
      List.length_replicate, Nat.sub_eq_zero_of_le (by decide), List.drop_zero, List.count_append]
    have htwo : List.count newline (newline :: [newline]) = 2 := by decide
    omega
  intro hsame
  rw [hwhole, tailLine_append (Or.inl rfl) hline hb hafter, ← hwhole, tailData] at hsame
  have hle := (tailLine_drop_iff (Or.inl rfl) hline hb hafter _).mp hsame
  have hfits := (tailStart_le_iff longRecord (Nat.zero_le _)).mp hle 1 hstop
  omega

end Recertia.Ledger
