import Recertia.Ledger.HashChain

/-! HMAC signatures of entries. The signature stands in the evidence, so that the digest of the
entry covers it; the signature itself covers the entry without it. -/
namespace Recertia.Ledger
open Lines Json

def sigAlg : String := "hmac-sha256"

def keyId : String := "hmac-sha256:1"

/-- `dict.get` -/
def get (items : Dict) (key : String) : Option Value :=
  (items.find? fun item => item.1 == key).map (·.2)

/-- `signature_bytes` -/
def signatureBytes (e : LedgerEntry) : Option Bytes :=
  canonicalBytes { e with evidence := withoutSig e.evidence }

variable (c : Codec)

/-- `sign_entry` -/
def signEntry (e : LedgerEntry) (key : Bytes) : Option Dict :=
  (signatureBytes e).map fun body =>
    [("alg", .str sigAlg), ("key_id", .str keyId), ("sig", .str (c.hmacSha256 key body))]

/-- The signature that an entry carries, where it has the right form. -/
def storedSig (e : LedgerEntry) : Option String :=
  match get e.evidence sigField with
  | some (.dict raw) =>
    match get raw "sig" with
    | some (.str sig) =>
      match get raw "alg" with
      | some (.str alg) => if alg = sigAlg then some sig else none
      | _ => none
    | _ => none
  | _ => none

/-- `signature_ok`, where an exception counts as a refusal. -/
def signatureOk (e : LedgerEntry) (key : Bytes) : Bool :=
  match storedSig e with
  | none => false
  | some sig =>
    match signatureBytes e with
    | none => false
    | some body => sig == c.hmacSha256 key body

variable {c : Codec}

theorem signatureOk_iff {e : LedgerEntry} {key : Bytes} :
    signatureOk c e key = true ↔
      ∃ sig body, storedSig e = some sig ∧ signatureBytes e = some body ∧
        sig = c.hmacSha256 key body := by
  unfold signatureOk
  cases hsig : storedSig e with
  | none => simp
  | some sig =>
    cases hbody : signatureBytes e with
    | none => simp
    | some body => simp

theorem withoutSig_append_sig (evidence : Dict) (sig : Value) :
    withoutSig (withoutSig evidence ++ [(sigField, sig)]) = withoutSig evidence := by
  simp [withoutSig, List.filter_append, List.filter_filter]

theorem get_append_sig (evidence : Dict) (sig : Value) :
    get (withoutSig evidence ++ [(sigField, sig)]) sigField = some sig := by
  have hnone : (withoutSig evidence).find? (fun item => item.1 == sigField) = none := by
    rw [List.find?_eq_none]
    intro item hitem
    have hne := (List.mem_filter.mp hitem).2
    simpa using hne
  unfold get
  rw [List.find?_append, hnone]
  simp

/-- What the hook has stamped verifies under its key, with whatever digest. -/
theorem beforeAppend_signatureOk {key : Bytes} {draft d : LedgerEntry}
    (h : beforeAppend c (some key) draft = some d) (entryHash : String) :
    signatureOk c { d with entryHash } key = true := by
  unfold beforeAppend at h
  dsimp only at h
  obtain ⟨body, hbody, rfl⟩ := Option.map_eq_some_iff.mp h
  rw [signatureOk_iff]
  refine ⟨c.hmacSha256 key body, body, ?_, ?_, rfl⟩
  · unfold storedSig
    rw [get_append_sig]
    rfl
  · unfold signatureBytes
    dsimp only
    rw [withoutSig_append_sig]
    exact hbody

end Recertia.Ledger
