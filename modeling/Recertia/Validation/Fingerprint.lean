import Recertia.Contract.Criteria
import Recertia.Validation.FreezeExact

/-! Fingerprints of workspaces, and the sensitivity evidence that is bound to one
(`validation/sensitivity.py`). -/
namespace Recertia.Validation

open LinkTree
open Graph (CriterionFields SensitivityProof TaskCriterion EvidenceHash sensitivityProofBinds)

/-- A name that an entry of a directory can have. -/
def IsName (name : String) : Prop :=
  name ≠ "" ∧ name ≠ "." ∧ name ≠ ".." ∧ '/' ∉ name.toList ∧ Char.ofNat 0 ∉ name.toList

/-- A workdir whose entries have names. -/
structure Fixture extends Workdir where
  named : ∀ p n, rooted.tree.get? p = some n → ∀ name ∈ p, IsName name

-- `sha256`: the hex digest of some bytes
-- `encode`: the canonical JSON of a criterion's executable fields
variable (sha256 : Bytes → String) (encode : CriterionFields → Bytes)

/-- Whether `path.resolve().relative_to(workdir.resolve())` finds an entry below the workdir. A path
without a link on it is followed in as many steps as it has parts. -/
def Workdir.contained (w : Workdir) (p : Path) : Bool :=
  match follow w.place w.rooted.tree (p.length + 1) [] p with
  | .inside _ => true
  | _ => false

/-- The regular files that the loop feeds to the digest, in the order of `sorted(rglob("*"))`. -/
def Fixture.fingerprinted (w : Fixture) : List (Path × Bytes) :=
  (w.rglob []).filterMap fun row =>
    match row.2 with
    | .file content _ => if w.contained row.1 then some (row.1, content) else none
    | _ => none

/-- `path.relative_to(workdir).as_posix()` -/
def asPosix (p : Path) : String := "/".intercalate p

/-- What the digest is fed for the files, one after another. -/
def fed (files : List (Path × Bytes)) : Bytes :=
  files.flatMap fun f => utf8 (asPosix f.1) ++ f.2

def filesOf : Option Fixture → List (Path × Bytes)
  | none => []
  | some w => w.fingerprinted

/-- A workdir that does not exist has the digest of nothing. -/
def workspaceFingerprint (w : Option Fixture) : String := sha256 (fed (filesOf w))

def sensitivityEvidenceHash : EvidenceHash := fun criterion negativeFingerprint =>
  sha256 (encode criterion ++ 0 :: utf8 negativeFingerprint)

/-- `author_sensitivity_proof` on a fixture named `name`. -/
def authorSensitivityProof (criterion : CriterionFields) (name : String) (w : Option Fixture)
    (runner : CriterionFields → Option Fixture → Bool) : SensitivityProof :=
  let negativeFingerprint := workspaceFingerprint sha256 w
  { criterionId := criterion.id
    negativeFixture := name
    rejected := !runner criterion w
    checkedAgainst := some ("sha256:" ++ negativeFingerprint)
    evidenceHash := some (sensitivityEvidenceHash sha256 encode criterion negativeFingerprint) }

/-- The proof carries the evidence of a fixture. -/
def BoundTo (criterion : CriterionFields) (proof : SensitivityProof) (w : Option Fixture) : Prop :=
  proof.checkedAgainst = some ("sha256:" ++ workspaceFingerprint sha256 w) ∧
    proof.evidenceHash =
      some (sensitivityEvidenceHash sha256 encode criterion (workspaceFingerprint sha256 w))

/-- The bytes of the regular file at a path, which is not a link. -/
def fileAt (w : Option Fixture) (p : Path) : Option Bytes :=
  match w.bind fun w => w.rooted.tree.get? p with
  | some (.file content _) => some content
  | _ => none

def SameFiles (w w' : Option Fixture) : Prop := ∀ p, fileAt w p = fileAt w' p

/-- Two fixtures have one fingerprint exactly if they have the same files, and evidence that was
authored on one is bound to the other exactly then. -/
structure Identifies (w w' : Option Fixture) : Prop where
  fingerprint : workspaceFingerprint sha256 w = workspaceFingerprint sha256 w' ↔ SameFiles w w'
  evidence : ∀ criterion name runner,
    BoundTo sha256 encode criterion (authorSensitivityProof sha256 encode criterion name w runner)
      w' ↔ SameFiles w w'

/-- Different files whose paths and contents, one after another, are the same bytes. -/
def Confusable (w w' : Option Fixture) : Prop :=
  ¬ SameFiles w w' ∧ fed (filesOf w) = fed (filesOf w')

/-- A path of directories ends where it says. -/
theorem follow_plain {place : Place} {t : Tree} {todo : List String} {at_ : Path}
    (hname : ".." ∉ todo)
    (hplain : ∀ q, q ≠ [] → q <+: todo → ∀ target, t.get? (at_ ++ q) ≠ some (.link target)) :
    follow place t (todo.length + 1) at_ todo = .inside (at_ ++ todo) := by
  induction todo generalizing at_ with
  | nil => simp [follow]
  | cons part todo ih =>
    have hpart : part ≠ ".." := fun heq => hname (heq ▸ List.mem_cons_self)
    have hrest : follow place t (todo.length + 1) (at_ ++ [part]) todo =
        .inside (at_ ++ part :: todo) := by
      rw [ih (fun hmem => hname (List.mem_cons_of_mem _ hmem))]
      · simp
      · intro q hq hbelow target
        have hfull := hplain (part :: q) (List.cons_ne_nil _ _)
          (List.cons_prefix_cons.mpr ⟨rfl, hbelow⟩) target
        simpa using hfull
    rw [List.length_cons, follow, if_neg hpart]
    split
    · rename_i target hlink
      exact absurd hlink (hplain [part] (List.cons_ne_nil _ _)
        (List.cons_prefix_cons.mpr ⟨rfl, List.nil_prefix⟩) target)
    · exact hrest

/-- No regular file is skipped: what `rglob` lists is below the workdir. -/
theorem Fixture.contained_file (w : Fixture) {p : Path} {content : Bytes} {mtime : ℕ}
    (h : w.rooted.tree.get? p = some (.file content mtime)) : w.contained p = true := by
  have hfollow : follow w.place w.rooted.tree (p.length + 1) [] p = .inside ([] ++ p) := by
    apply follow_plain
    · intro hmem
      exact (w.named p _ h _ hmem).2.2.1 rfl
    · intro q hq hbelow target hlink
      rw [List.nil_append] at hlink
      by_cases heq : q = p
      · rw [heq, h] at hlink
        cases hlink
      · rw [w.rooted.ancestor h hbelow hq heq] at hlink
        cases hlink
  unfold Workdir.contained
  rw [hfollow]

theorem mem_filesOf {w : Option Fixture} {p : Path} {content : Bytes} :
    (p, content) ∈ filesOf w ↔ fileAt w p = some content := by
  cases w with
  | none => simp [filesOf, fileAt]
  | some w =>
    unfold filesOf Fixture.fingerprinted fileAt
    rw [List.mem_filterMap, Option.bind_some]
    constructor
    · rintro ⟨⟨q, n⟩, hrow, hread⟩
      obtain ⟨sub, -, -, hget⟩ := Workdir.mem_rglob.mp hrow
      cases n with
      | dir => cases hread
      | link target => cases hread
      | file c mtime =>
        dsimp only at hread hget
        rw [if_pos (w.contained_file hget)] at hread
        cases hread
        rw [hget]
    · intro hfile
      cases hget : w.rooted.tree.get? p with
      | none => rw [hget] at hfile; cases hfile
      | some n =>
        rw [hget] at hfile
        cases n with
        | dir => cases hfile
        | link target => cases hfile
        | file c mtime =>
          cases hfile
          refine ⟨(p, .file content mtime), Workdir.mem_rglob.mpr ⟨p, ?_, rfl, hget⟩, ?_⟩
          · exact w.rooted.proper p _ hget
          · dsimp only
            rw [if_pos (w.contained_file hget)]

theorem pairwise_filesOf (w : Option Fixture) :
    ((filesOf w).map Prod.fst).Pairwise (· < ·) := by
  cases w with
  | none => exact List.Pairwise.nil
  | some w =>
    refine (w.pairwise_rglob []).sublist (keys_filterMap_sublist (fun row out hout => ?_) _)
    split at hout
    · split at hout
      · cases hout
        rfl
      · cases hout
    · cases hout

/-- The files are a map from paths to bytes, listed in one order. -/
theorem filesOf_eq_iff (w w' : Option Fixture) : filesOf w = filesOf w' ↔ SameFiles w w' := by
  constructor
  · intro h p
    apply Option.ext
    intro content
    rw [← mem_filesOf, ← mem_filesOf, h]
  · intro h
    apply eq_of_pairwise_of_mem (pairwise_filesOf w) (pairwise_filesOf w')
    rintro ⟨p, content⟩
    rw [mem_filesOf, mem_filesOf, h p]

section Digest

variable {sha256} {encode}

theorem fingerprint_eq_iff (hsha : Function.Injective sha256) (w w' : Option Fixture) :
    workspaceFingerprint sha256 w = workspaceFingerprint sha256 w' ↔
      fed (filesOf w) = fed (filesOf w') := hsha.eq_iff

/-- Evidence is bound to the fixtures that have the fingerprint it was authored with. -/
theorem boundTo_author_iff (hsha : Function.Injective sha256) (criterion : CriterionFields)
    (name : String) (w w' : Option Fixture)
    (runner : CriterionFields → Option Fixture → Bool) :
    BoundTo sha256 encode criterion
        (authorSensitivityProof sha256 encode criterion name w runner) w' ↔
      workspaceFingerprint sha256 w = workspaceFingerprint sha256 w' := by
  constructor
  · rintro ⟨-, hevidence⟩
    have hbytes := hsha (Option.some.inj hevidence)
    have htail := List.append_cancel_left hbytes
    exact Json.utf8_inj (List.cons.inj htail).2
  · intro h
    unfold BoundTo authorSensitivityProof
    rw [h]
    exact ⟨rfl, rfl⟩

/-- The fingerprint tells two fixtures apart unless what is fed for them is the same. -/
theorem identifies_iff (hsha : Function.Injective sha256) (w w' : Option Fixture) :
    Identifies sha256 encode w w' ↔ ¬ Confusable w w' := by
  have hsame : SameFiles w w' → fed (filesOf w) = fed (filesOf w') :=
    fun h => congrArg fed ((filesOf_eq_iff w w').mpr h)
  constructor
  · rintro ⟨hfingerprint, -⟩ ⟨hdiffer, hfed⟩
    exact hdiffer (hfingerprint.mp ((fingerprint_eq_iff hsha w w').mpr hfed))
  · intro h
    have hiff : workspaceFingerprint sha256 w = workspaceFingerprint sha256 w' ↔
        SameFiles w w' := by
      rw [fingerprint_eq_iff hsha]
      refine ⟨fun hfed => ?_, hsame⟩
      by_contra hdiffer
      exact h ⟨hdiffer, hfed⟩
    refine ⟨hiff, fun criterion name runner => ?_⟩
    rw [boundTo_author_iff hsha]
    exact hiff

end Digest

/-- A fixture of one file. -/
def oneFile (name : String) (h : IsName name) (content : Bytes) : Fixture where
  toWorkdir := workdirOf ⟨[([name], .file content 0)], by simp⟩ (by simp [standsIn])
  named := by
    intro p n hget part hpart
    obtain ⟨rfl, -⟩ := Prod.mk.inj (List.mem_singleton.mp (Table.get?_eq_some.mp hget))
    rw [List.mem_singleton.mp hpart]
    exact h

theorem fileAt_oneFile (name : String) (h : IsName name) (content : Bytes) (p : Path) :
    fileAt (some (oneFile name h content)) p = if p = [name] then some content else none := by
  have hrow (n : Node) : (oneFile name h content).rooted.tree.get? p = some n ↔
      p = [name] ∧ n = .file content 0 := by
    rw [Table.get?_eq_some]
    exact List.mem_singleton.trans Prod.mk_inj
  unfold fileAt
  rw [Option.bind_some]
  by_cases hp : p = [name]
  · rw [(hrow _).mpr ⟨hp, rfl⟩, if_pos hp]
  · have hnone : (oneFile name h content).rooted.tree.get? p = none := by
      apply Option.eq_none_iff_forall_ne_some.mpr
      intro n hn
      exact hp ((hrow n).mp hn).1
    rw [hnone, if_neg hp]

theorem fed_oneFile (name : String) (h : IsName name) (content : Bytes) :
    fed (filesOf (some (oneFile name h content))) = utf8 name ++ content := by
  have hfiles : filesOf (some (oneFile name h content)) = [([name], content)] := by
    apply eq_of_pairwise_of_mem (pairwise_filesOf _) (List.pairwise_singleton _ _)
    rintro ⟨p, c⟩
    rw [mem_filesOf, fileAt_oneFile, List.mem_singleton, Prod.mk.injEq]
    by_cases hp : p = [name]
    · simp [hp, eq_comm]
    · simp [hp]
  rw [hfiles]
  simp [fed, asPosix]

/-- Bytes that move from the front of a file into its name are not noticed. -/
theorem confusable_shift {a b : String} (ha : IsName a) (hab : IsName (a ++ b)) (hb : b ≠ "")
    (content : Bytes) :
    Confusable (some (oneFile a ha (utf8 b ++ content))) (some (oneFile (a ++ b) hab content)) := by
  constructor
  · intro hsame
    have hfile := hsame [a]
    have hne : [a] ≠ [a ++ b] := by
      intro heq
      have hname := congrArg String.toList (List.singleton_inj.mp heq)
      rw [String.toList_append] at hname
      have hnil := List.append_right_eq_self.mp hname.symm
      exact hb (String.toList_eq_nil_iff.mp hnil)
    rw [fileAt_oneFile, fileAt_oneFile, if_pos rfl, if_neg hne] at hfile
    cases hfile
  · rw [fed_oneFile, fed_oneFile, utf8_append, List.append_assoc]

theorem identifies_edited :
    Identifies byteText (fun _ => []) (some (oneFile "notes.txt" (by unfold IsName; decide) [1]))
      (some (oneFile "notes.txt" (by unfold IsName; decide) [2])) := by
  apply (identifies_iff byteText_injective _ _).mpr
  rintro ⟨-, hfed⟩
  rw [fed_oneFile, fed_oneFile] at hfed
  have hcontent := List.append_cancel_left hfed
  cases hcontent

/-- An empty file `ab` has the fingerprint of a file `a` with the content `b`. -/
theorem not_identifies_shifted :
    Function.Injective byteText ∧ ¬ Identifies byteText (fun _ => [])
      (some (oneFile "a" (by unfold IsName; decide) (utf8 "b")))
      (some (oneFile "ab" (by unfold IsName; decide) [])) := by
  refine ⟨byteText_injective, fun h => ?_⟩
  have ha : IsName "a" := by unfold IsName; decide
  have hab : IsName ("a" ++ "b") := by unfold IsName; decide
  obtain ⟨hdiffer, hfed⟩ := confusable_shift ha hab (by decide) []
  rw [List.append_nil] at hdiffer hfed
  exact hdiffer (h.fingerprint.mp (congrArg byteText hfed))

end Recertia.Validation
