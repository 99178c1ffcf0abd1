import Recertia.Lib.JsonText
import Recertia.Ledger.Append
import Recertia.Ledger.Incremental
import Recertia.Ledger.Signer
import Mathlib.Data.List.Forall2

/-! A digest binds the entry and all entries before it. -/
namespace Recertia.Ledger
open Lines Json
variable {c : Codec}

/-- The digest tells the canonical bytes of any two entries apart. -/
def InjectiveOnCanonical (digest : Bytes → String) : Prop :=
  ∀ e e' b b', canonicalBytes e = some b → canonicalBytes e' = some b' → digest b = digest b' →
    b = b'

def canonicalPayload (e : LedgerEntry) : Dict :=
  [("seq", .int e.seq), ("prev_hash", .str e.prevHash), ("actor", .str e.actor),
    ("action", .str e.action.literal), ("target", .str e.target),
    ("evidence", .dict (jsonModeDict e.evidence)), ("at", .str e.at_)]

theorem canonicalBytes_some {e : LedgerEntry} {b : Bytes} (h : canonicalBytes e = some b) :
    (Value.dict (canonicalPayload e)).dumps.toUTF8.data.toList = b := by
  unfold canonicalBytes at h
  split at h
  · exact Option.some.inj h
  · cases h

/-- The members of an entry's canonical text. -/
def canonicalMembers (e : LedgerEntry) : List (String × String) :=
  [("seq", toString (e.seq : Int)), ("prev_hash", quote e.prevHash), ("actor", quote e.actor),
    ("action", quote e.action.literal), ("target", quote e.target),
    ("evidence", (Value.dict (jsonModeDict e.evidence)).dumps), ("at", quote e.at_)]

theorem dumpsDict_payload (e : LedgerEntry) :
    dumpsDict (canonicalPayload e) = canonicalMembers e := by
  simp only [canonicalPayload, canonicalMembers, dumpsDict, Value.dumps]

theorem balanced_canonicalMembers (e : LedgerEntry) :
    ∀ item ∈ canonicalMembers e, Balanced item.2.toList := by
  intro item hitem
  simp only [canonicalMembers, List.mem_cons, List.not_mem_nil, or_false] at hitem
  rcases hitem with rfl | rfl | rfl | rfl | rfl | rfl | rfl
  · exact balanced_int _
  · exact balanced_quote _
  · exact balanced_quote _
  · exact balanced_quote _
  · exact balanced_quote _
  · exact balanced_dict (balanced_dumpsDict e.evidence)
  · exact balanced_quote _

/-- Two entries with one canonical form have the same members in it. -/
theorem members_of_canonical {e e' : LedgerEntry} {b : Bytes} (h : canonicalBytes e = some b)
    (h' : canonicalBytes e' = some b) : canonicalMembers e = canonicalMembers e' := by
  have htext := utf8_inj ((canonicalBytes_some h).trans (canonicalBytes_some h').symm)
  have hbalanced : ∀ e, ∀ item ∈ dumpsDict (canonicalPayload e), Balanced item.2.toList := by
    intro e
    rw [dumpsDict_payload]
    exact balanced_canonicalMembers e
  have hperm := dumps_dict_inj (hbalanced e) (hbalanced e') htext
  rw [dumpsDict_payload, dumpsDict_payload] at hperm
  have hnodup : ((canonicalMembers e).map Prod.fst).Nodup := by
    have hkeys : (canonicalMembers e).map Prod.fst =
        ["seq", "prev_hash", "actor", "action", "target", "evidence", "at"] := rfl
    rw [hkeys]
    decide
  exact eq_of_perm_of_keys hperm rfl hnodup

/-- The two entries have the same fields, up to the text of the evidence and the digest. -/
structure SameFields (e e' : LedgerEntry) : Prop where
  seq : e.seq = e'.seq
  prevHash : e.prevHash = e'.prevHash
  actor : e.actor = e'.actor
  action : e.action = e'.action
  target : e.target = e'.target
  evidence : (Value.dict (jsonModeDict e.evidence)).dumps =
    (Value.dict (jsonModeDict e'.evidence)).dumps
  at_ : e.at_ = e'.at_

theorem literal_injective : Function.Injective LedgerAction.literal := by
  let named (text : String) : Option LedgerAction :=
    [LedgerAction.write, .advanceToCandidate, .quarantineVersion, .deprecate, .policyChange,
      .lintReject, .compressSkill, .revokeLineage, .composeBlock, .publishPatchTemplate,
      .liftReport, .faithfulnessReport, .applicabilityReject, .meaActivationFallback,
      .closeReceipt, .ledgerRepaired].find? fun a => a.literal == text
  have hnamed : ∀ a : LedgerAction, named a.literal = some a := by
    intro a
    cases a <;> decide +kernel
  intro a a' h
  apply Option.some.inj
  rw [← hnamed a, ← hnamed a', h]

theorem sameFields_of_canonical {e e' : LedgerEntry} {b : Bytes} (h : canonicalBytes e = some b)
    (h' : canonicalBytes e' = some b) : SameFields e e' := by
  have hmembers := members_of_canonical h h'
  simp only [canonicalMembers, List.cons.injEq, Prod.mk.injEq, true_and, and_true] at hmembers
  obtain ⟨hseq, hprev, hactor, haction, htarget, hevidence, hat⟩ := hmembers
  exact ⟨natRepr_inj hseq, quote_inj hprev, quote_inj hactor,
    literal_injective (quote_inj haction), quote_inj htarget, hevidence, quote_inj hat⟩

/-- One digest, one canonical form. -/
structure SameCanonical (e e' : LedgerEntry) : Prop where
  canonical : canonicalBytes e = canonicalBytes e'
  entryHash : e.entryHash = e'.entryHash

theorem canonical_of_linked {n : ℕ} {prev : String} {e : LedgerEntry} (h : Linked c n prev e) :
    ∃ b, canonicalBytes e = some b ∧ c.sha256 b = e.entryHash := by
  have hhash := h.entryHash
  unfold computeEntryHash at hhash
  exact Option.map_eq_some_iff.mp hhash

/-- Two verified entries with one digest stand at one position behind one digest. -/
theorem same_of_entryHash {n m : ℕ} {prev prev' : String} {e e' : LedgerEntry}
    (hsha : InjectiveOnCanonical c.sha256) (he : Linked c n prev e) (he' : Linked c m prev' e')
    (h : e.entryHash = e'.entryHash) : SameCanonical e e' ∧ n = m ∧ prev = prev' := by
  obtain ⟨b, hb, hsum⟩ := canonical_of_linked he
  obtain ⟨b', hb', hsum'⟩ := canonical_of_linked he'
  have hbb : b = b' := hsha e e' b b' hb hb' (by rw [hsum, hsum', h])
  subst hbb
  have hsame := sameFields_of_canonical hb hb'
  refine ⟨⟨hb.trans hb'.symm, h⟩, ?_, ?_⟩
  · rw [← he.seq, ← he'.seq, hsame.seq]
  · rw [← he.prevHash, ← he'.prevHash, hsame.prevHash]

/-- Two verified histories of one length up to one digest are the same. -/
theorem same_of_tipHash (hsha : InjectiveOnCanonical c.sha256) {es es' : List LedgerEntry}
    (hes : verifyChain c 0 genesisHash es = .ok ()) (hes' : verifyChain c 0 genesisHash es' = .ok ())
    (hlen : es.length = es'.length) (htip : tipHash genesisHash es = tipHash genesisHash es') :
    List.Forall₂ SameCanonical es es' := by
  -- from the last entry backwards: its digest gives the digest of the entry before it
  induction es using List.reverseRecOn generalizing es' with
  | nil =>
    have hnil : es' = [] := List.length_eq_zero_iff.mp hlen.symm
    subst hnil
    exact List.Forall₂.nil
  | append_singleton es e ih =>
    rcases List.eq_nil_or_concat' es' with rfl | ⟨es', e', rfl⟩
    · simp at hlen
    · obtain ⟨hpre, hlast⟩ := verifyChain_append.mp hes
      obtain ⟨hpre', hlast'⟩ := verifyChain_append.mp hes'
      have hlinked := (verifyChain_cons.mp hlast).1
      have hlinked' := (verifyChain_cons.mp hlast').1
      rw [tipHash_append, tipHash_append] at htip
      obtain ⟨hsame, -, hprev⟩ := same_of_entryHash hsha hlinked hlinked' htip
      have hlen' : es.length = es'.length := by simpa using hlen
      exact List.rel_append (ih hpre hpre' hlen' hprev) (List.Forall₂.cons hsame .nil)

theorem verified_take {n : ℕ} {prev : String} {es : List LedgerEntry}
    (hes : verifyChain c n prev es = .ok ()) (i : ℕ) : verifyChain c n prev (es.take i) = .ok () := by
  rw [← List.take_append_drop i es] at hes
  exact (verifyChain_append.mp hes).1

theorem linked_at {es : List LedgerEntry} (hes : verifyChain c 0 genesisHash es = .ok ()) {i : ℕ}
    {e : LedgerEntry} (hi : es[i]? = some e) :
    Linked c i (tipHash genesisHash (es.take i)) e := by
  obtain ⟨hlt, rfl⟩ := List.getElem?_eq_some_iff.mp hi
  have hsplit : es = es.take i ++ es[i] :: es.drop (i + 1) := by simp
  rw [hsplit] at hes
  have hlast := (verifyChain_cons.mp (verifyChain_append.mp hes).2).1
  rwa [Nat.zero_add, List.length_take_of_le (Nat.le_of_lt hlt)] at hlast

theorem take_succ_of_getElem {es : List LedgerEntry} {i : ℕ} {e : LedgerEntry}
    (hi : es[i]? = some e) : es.take (i + 1) = es.take i ++ [e] := by
  rw [List.take_add_one, hi]
  rfl

theorem length_take_of_getElem {es : List LedgerEntry} {i : ℕ} {e : LedgerEntry}
    (hi : es[i]? = some e) : (es.take i).length = i := by
  obtain ⟨hlt, -⟩ := List.getElem?_eq_some_iff.mp hi
  exact List.length_take_of_le (Nat.le_of_lt hlt)

/-- Two verified histories with one digest in them agree up to there. -/
theorem same_prefix {es es' : List LedgerEntry} (hsha : InjectiveOnCanonical c.sha256)
    (hes : verifyChain c 0 genesisHash es = .ok ()) (hes' : verifyChain c 0 genesisHash es' = .ok ())
    {i j : ℕ} {e e' : LedgerEntry} (hi : es[i]? = some e) (hj : es'[j]? = some e')
    (h : e.entryHash = e'.entryHash) :
    i = j ∧ List.Forall₂ SameCanonical (es.take (i + 1)) (es'.take (j + 1)) := by
  obtain ⟨-, rfl, -⟩ := same_of_entryHash hsha (linked_at hes hi) (linked_at hes' hj) h
  refine ⟨rfl, same_of_tipHash hsha (verified_take hes _) (verified_take hes' _) ?_ ?_⟩
  · rw [take_succ_of_getElem hi, take_succ_of_getElem hj, List.length_append, List.length_append,
      length_take_of_getElem hi, length_take_of_getElem hj]
    rfl
  · rw [take_succ_of_getElem hi, take_succ_of_getElem hj, tipHash_append, tipHash_append]
    exact h

/-- Two verified histories with one signature in them agree up to there. -/
theorem same_behind_signature {es es' : List LedgerEntry} {key : Bytes}
    (hsha : InjectiveOnCanonical c.sha256) (hmac : InjectiveOnCanonical (c.hmacSha256 key))
    (hes : verifyChain c 0 genesisHash es = .ok ()) (hes' : verifyChain c 0 genesisHash es' = .ok ())
    {i j : ℕ} {e e' : LedgerEntry} (hi : es[i]? = some e) (hj : es'[j]? = some e')
    (hsig : storedSig e = storedSig e') (hok : signatureOk c e key = true)
    (hok' : signatureOk c e' key = true) :
    i = j ∧ List.Forall₂ SameCanonical (es.take i) (es'.take j) := by
  obtain ⟨sig, body, hstored, hbody, hsum⟩ := signatureOk_iff.mp hok
  obtain ⟨sig', body', hstored', hbody', hsum'⟩ := signatureOk_iff.mp hok'
  have hsigs : sig = sig' := by
    rw [hstored, hstored'] at hsig
    exact Option.some.inj hsig
  have hbodies : body = body' :=
    hmac _ _ body body' hbody hbody' (by rw [← hsum, ← hsum', hsigs])
  subst hbodies
  have hsame := sameFields_of_canonical hbody hbody'
  have hlinked := linked_at hes hi
  have hlinked' := linked_at hes' hj
  have hij : i = j := by
    rw [← hlinked.seq, ← hlinked'.seq]
    exact hsame.seq
  subst hij
  refine ⟨rfl, same_of_tipHash hsha (verified_take hes _) (verified_take hes' _) ?_ ?_⟩
  · rw [length_take_of_getElem hi, length_take_of_getElem hj]
  · rw [← hlinked.prevHash, ← hlinked'.prevHash]
    exact hsame.prevHash

theorem last_entry {es : List LedgerEntry} (h : es ≠ []) :
    ∃ i e, es[i]? = some e ∧ es.take (i + 1) = es ∧ tipHash genesisHash es = e.entryHash := by
  rcases List.eq_nil_or_concat' es with rfl | ⟨es, e, rfl⟩
  · exact absurd rfl h
  · refine ⟨es.length, e, by simp, List.take_of_length_le (by simp), ?_⟩
    rw [tipHash_append]
    rfl

/-- A digest at the tip binds the whole history, one at any position the prefix up to it, and a
signature the prefix before it. -/
theorem tamper_evident (c : Codec) (es es' : List LedgerEntry)
    (hsha : InjectiveOnCanonical c.sha256) (hes : verifyChain c 0 genesisHash es = .ok ())
    (hes' : verifyChain c 0 genesisHash es' = .ok ()) :
    (tipHash genesisHash es = tipHash genesisHash es' →
      es.length = es'.length ∨ (es ≠ [] ∧ es' ≠ []) → List.Forall₂ SameCanonical es es') ∧
    (∀ i j e e', es[i]? = some e → es'[j]? = some e' → e.entryHash = e'.entryHash →
      i = j ∧ List.Forall₂ SameCanonical (es.take (i + 1)) (es'.take (j + 1))) ∧
    (∀ key, InjectiveOnCanonical (c.hmacSha256 key) → ∀ i j e e', es[i]? = some e →
      es'[j]? = some e' → storedSig e = storedSig e' → signatureOk c e key = true →
      signatureOk c e' key = true →
      i = j ∧ List.Forall₂ SameCanonical (es.take i) (es'.take j)) := by
  refine ⟨fun htip hlen => ?_, fun i j e e' hi hj h => same_prefix hsha hes hes' hi hj h,
    fun key hmac i j e e' hi hj hsig hok hok' =>
      same_behind_signature hsha hmac hes hes' hi hj hsig hok hok'⟩
  rcases hlen with hlen | ⟨hne, hne'⟩
  · exact same_of_tipHash hsha hes hes' hlen htip
  · obtain ⟨i, e, hi, htake, he⟩ := last_entry hne
    obtain ⟨j, e', hj, htake', he'⟩ := last_entry hne'
    obtain ⟨-, hsame⟩ := same_prefix hsha hes hes' hi hj (by rw [← he, ← he', htip])
    rwa [htake, htake'] at hsame

theorem two_entries_verified :
    verifyChain spellCodec 0 genesisHash [firstEntry, secondEntry] = .ok () := by
  have hfirst : Linked spellCodec 0 genesisHash firstEntry :=
    ⟨rfl, rfl, spellCodec_hash 0 genesisHash, fun h => by cases h⟩
  have hsecond : Linked spellCodec 1 firstHash secondEntry :=
    ⟨rfl, rfl, spellCodec_hash 1 firstHash, fun h => by cases h⟩
  exact verifyChain_cons.mpr ⟨hfirst, verifyChain_cons.mpr ⟨hsecond, rfl⟩⟩

theorem tamper_evident_two_entries :
    List.Forall₂ SameCanonical [firstEntry, secondEntry] [firstEntry, secondEntry] :=
  (tamper_evident spellCodec [firstEntry, secondEntry] [firstEntry, secondEntry]
    (fun _ _ _ _ _ _ h => spell_injective h) two_entries_verified two_entries_verified).1 rfl
    (Or.inl rfl)

end Recertia.Ledger
