import Mathlib.Data.String.Basic
import Recertia.Lib.JsonText
import Recertia.Skill.Effects

/-! Distillation picks a version number from the near-duplicates in the library, and `store` writes
the draft under it as a candidate: when that adds a fresh version. The stamps of `store` change the
hygiene fields only, which the versions here leave out. -/
namespace Recertia.Skill

/-- The lifecycles among which `_nearest_duplicate` searches. -/
def Lifecycle.duplicable : Lifecycle → Bool
  | .approved => true
  | .candidate => true
  | .shadow => true
  | _ => false

def isNearDuplicate (want : String) (row : SkillRef × Entry) : Bool :=
  row.2.loaded.lifecycle.duplicable && row.1.skillId == want

/-- `_nearest_duplicate`: the first hit in the order of the directories. -/
def nearestDuplicate (lib : Library) (want : String) : Option SkillRef :=
  (lib.iterLoaded.find? (isNearDuplicate want)).map Prod.fst

/-- The version of a draft. -/
def draftVersion (lib : Library) (want : String) : ℕ :=
  match nearestDuplicate lib want with
  | none => 1
  | some near => near.version + 1

/-- The write of the `store` node: a draft that passes the hygiene scan becomes a candidate. -/
def storeDraft (clean : Bool) (lib : Library) (ref : SkillRef) (draft : SkillVersion) :
    Except LibraryError Library :=
  if clean then lib.writeCandidate ref draft else .error (.refused "hygiene scan failed")

/-- A clean draft is stored: its version reads back, and every version that existed before has its
content, its status and its statistics. -/
def StoresFresh (lib : Library) (want : String) (draft : SkillVersion) : Prop :=
  ∃ lib', storeDraft true lib ⟨want, draftVersion lib want⟩ draft = .ok lib' ∧
    (lib'.get? ⟨want, draftVersion lib want⟩).map Entry.version = some draft ∧
    ∀ ref entry, lib.get? ref = some entry → lib'.get? ref = some entry

/-- A version of the skill that a draft may supersede. -/
def Duplicable (lib : Library) (want : String) (v : ℕ) : Prop :=
  ∃ entry, lib.get? ⟨want, v⟩ = some entry ∧ entry.loaded.lifecycle.duplicable = true

/-- The number after the first of the versions in the order of the names `v1`, `v10`, `v2`, …, or
one without any. -/
def NextNumber (lib : Library) (want : String) (n : ℕ) : Prop :=
  ((∀ v, ¬ Duplicable lib want v) ∧ n = 1) ∨
    ∃ first, Duplicable lib want first ∧
      (∀ v, Duplicable lib want v → "v" ++ toString first ≤ "v" ++ toString v) ∧ n = first + 1

theorem inactive_retrievable (lifecycle : Lifecycle) :
    false = true → lifecycle.retrievable = true := fun h => Bool.noConfusion h

/-- What a candidate looks like right after its first write. -/
def freshCandidate (draft : SkillVersion) : Entry where
  version := draft
  status := some { lifecycle := .candidate, activeRetrievable := inactive_retrievable .candidate }
  stats := some {}

theorem versionName_inj {a b : ℕ} (h : "v" ++ toString a = "v" ++ toString b) : a = b := by
  have hlist := congrArg String.toList h
  rw [String.toList_append, String.toList_append, List.append_cancel_left_eq] at hlist
  exact Json.natRepr_inj (String.toList_inj.mp hlist)

theorem before_trans {a b c : SkillRef} (hab : a.before b) (hbc : b.before c) : a.before c := by
  unfold SkillRef.before at *
  rcases hab with hab | ⟨hab, hab'⟩
  · rcases hbc with hbc | ⟨hbc, -⟩
    · exact Or.inl (hab.trans hbc)
    · exact Or.inl (hbc ▸ hab)
  · rcases hbc with hbc | ⟨hbc, hbc'⟩
    · exact Or.inl (hab ▸ hbc)
    · exact Or.inr ⟨hab.trans hbc, hab'.trans hbc'⟩

theorem before_total (a b : SkillRef) : a.before b ∨ b.before a := by
  unfold SkillRef.before
  rcases lt_trichotomy a.skillId b.skillId with hlt | heq | hlt
  · exact Or.inl (Or.inl hlt)
  · rcases le_total ("v" ++ toString a.version) ("v" ++ toString b.version) with hle | hle
    · exact Or.inl (Or.inr ⟨heq, hle⟩)
    · exact Or.inr (Or.inr ⟨heq.symm, hle⟩)
  · exact Or.inr (Or.inl hlt)

theorem iterLoaded_sorted (lib : Library) :
    lib.iterLoaded.Pairwise fun a b => a.1.before b.1 := by
  have : Std.Total fun a b : SkillRef × Entry => a.1.before b.1 :=
    ⟨fun a b => before_total a.1 b.1⟩
  have : IsTrans (SkillRef × Entry) fun a b => a.1.before b.1 :=
    ⟨fun _ _ _ hab hbc => before_trans hab hbc⟩
  exact List.pairwise_insertionSort _ lib.entries.rows

/-- In a sorted list the first hit comes before every other one. -/
theorem find?_first {α : Type*} {r : α → α → Prop} {p : α → Bool} {l : List α} {a : α}
    (hsorted : l.Pairwise r) (hfind : l.find? p = some a) :
    ∀ b ∈ l, p b = true → b = a ∨ r a b := by
  obtain ⟨-, before, after, rfl, hbefore⟩ := List.find?_eq_some_iff_append.mp hfind
  intro b hb hp
  rcases List.mem_append.mp hb with hb | hb
  · have hnot := hbefore b hb
    rw [hp] at hnot
    cases hnot
  · rcases List.mem_cons.mp hb with rfl | hb
    · exact Or.inl rfl
    · exact Or.inr ((List.pairwise_cons.mp (List.pairwise_append.mp hsorted).2.1).1 b hb)

theorem isNearDuplicate_iff {lib : Library} {want : String} {row : SkillRef × Entry}
    (hrow : row ∈ lib.iterLoaded) :
    isNearDuplicate want row = true ↔ row.1.skillId = want ∧ Duplicable lib want row.1.version := by
  have hget : lib.get? row.1 = some row.2 := mem_iterLoaded.mp hrow
  unfold isNearDuplicate Duplicable
  rw [Bool.and_eq_true, beq_iff_eq]
  constructor
  · rintro ⟨hlive, rfl⟩
    exact ⟨rfl, row.2, hget, hlive⟩
  · rintro ⟨rfl, entry, hentry, hlive⟩
    obtain rfl : row.2 = entry := Option.some.inj (hget.symm.trans hentry)
    exact ⟨hlive, rfl⟩

theorem Duplicable.row {lib : Library} {want : String} {v : ℕ} (h : Duplicable lib want v) :
    ∃ row ∈ lib.iterLoaded, isNearDuplicate want row = true ∧ row.1 = ⟨want, v⟩ := by
  obtain ⟨entry, hentry, hlive⟩ := h
  have hmem : (⟨⟨want, v⟩, entry⟩ : SkillRef × Entry) ∈ lib.iterLoaded := mem_iterLoaded.mpr hentry
  exact ⟨_, hmem, (isNearDuplicate_iff hmem).mpr ⟨rfl, entry, hentry, hlive⟩, rfl⟩

/-- The number that distillation takes. -/
theorem nextNumber_draftVersion (lib : Library) (want : String) :
    NextNumber lib want (draftVersion lib want) := by
  unfold draftVersion nearestDuplicate
  cases hfind : lib.iterLoaded.find? (isNearDuplicate want) with
  | none =>
    refine Or.inl ⟨fun v hv => ?_, rfl⟩
    obtain ⟨row, hrow, hdup, -⟩ := hv.row
    exact List.find?_eq_none.mp hfind row hrow hdup
  | some row =>
    have hrow := List.mem_of_find?_eq_some hfind
    obtain ⟨hid, hdup⟩ := (isNearDuplicate_iff hrow).mp (List.find?_some hfind)
    refine Or.inr ⟨row.1.version, hdup, fun v hv => ?_, rfl⟩
    obtain ⟨row', hrow', hdup', href⟩ := hv.row
    rcases find?_first (iterLoaded_sorted lib) hfind row' hrow' hdup' with rfl | hbefore
    · rw [href]
    · rcases hbefore with hlt | ⟨-, hle⟩
      · rw [hid, href] at hlt
        exact absurd hlt (lt_irrefl want)
      · rw [href] at hle
        exact hle

theorem NextNumber.unique {lib : Library} {want : String} {m n : ℕ}
    (hm : NextNumber lib want m) (hn : NextNumber lib want n) : m = n := by
  rcases hm with ⟨hnone, rfl⟩ | ⟨a, ha, hmin, rfl⟩
  · rcases hn with ⟨-, rfl⟩ | ⟨b, hb, -⟩
    · rfl
    · exact absurd hb (hnone b)
  · rcases hn with ⟨hnone, -⟩ | ⟨b, hb, hmin', rfl⟩
    · exact absurd ha (hnone a)
    · have hname := le_antisymm (hmin b hb) (hmin' a ha)
      rw [versionName_inj hname]

/-- Over a lifecycle that is not protected, and where nothing is, a candidate is written. -/
theorem writeCandidate_isOk {lib : Library} {ref : SkillRef} (draft : SkillVersion)
    (h : ∀ entry status, lib.get? ref = some entry → entry.status = some status →
      status.lifecycle.protectedFromDemote = false) :
    ∃ lib', lib.writeCandidate ref draft = .ok lib' := by
  -- The second half of `write_candidate`, after the version has been written or found.
  have hwrite (mid : Library) (entry : Entry) (hentry : mid.get? ref = some entry)
      (hopen : ∀ status, entry.status = some status →
        status.lifecycle.protectedFromDemote = false) :
      ∃ lib', (do
        if ((mid.get? ref).bind Entry.status).any
            fun status => status.lifecycle.protectedFromDemote then
          throw LibraryError.approvedLifecycle
        let lib ← mid.writeStatus ref { lifecycle := .candidate } none
        return lib.putStats ref {}) = Except.ok lib' := by
    have hcandidate : ({ lifecycle := .candidate } : SkillStatus).lifecycle ≠ .approved := by
      decide
    obtain ⟨after, hafter, -⟩ := writeStatus_of_writable hentry (writable_of_ne hcandidate)
    refine ⟨after.putStats ref {}, ?_⟩
    apply Fallible.unless_eq_ok.mpr
    refine ⟨?_, Fallible.bind_eq_ok.mpr ⟨after, hafter, rfl⟩⟩
    rw [hentry, Option.bind_some]
    cases hstatus : entry.status with
    | none => decide
    | some status =>
      rw [Option.any_some, hopen status hstatus]
      decide
  unfold Library.writeCandidate
  cases hold : lib.get? ref with
  | none =>
    have hkey : ref ∉ lib.entries.keys := Table.get?_eq_none.mp hold
    cases hinsert : lib.entries.insert ref { version := draft } with
    | none => exact absurd (Table.insert_eq_none.mp hinsert) hkey
    | some entries =>
      have hmid : lib.writeVersion ref draft =
          .ok { lib with entries, index := record lib.index ref draft } := by
        unfold Library.writeVersion
        rw [hinsert]
      have hget : Library.get? { lib with entries, index := record lib.index ref draft } ref =
          some { version := draft } := by
        rw [Library.get?, Table.get?_insert hinsert, if_pos rfl]
      obtain ⟨lib', hlib'⟩ := hwrite _ _ hget fun status hstatus => (by cases hstatus)
      exact ⟨lib', Fallible.bind_eq_ok.mpr ⟨_, hmid, hlib'⟩⟩
  | some old =>
    obtain ⟨lib', hlib'⟩ := hwrite lib old hold (h old · hold)
    exact ⟨lib', Fallible.bind_eq_ok.mpr ⟨lib, rfl, hlib'⟩⟩

/-- A draft is stored as a fresh version exactly when the number after its near-duplicate is free,
or already holds this very draft as a fresh candidate. -/
theorem stores_fresh_iff (lib : Library) (want : String) (draft : SkillVersion) :
    StoresFresh lib want draft ↔
      ∀ n entry, NextNumber lib want n → lib.get? ⟨want, n⟩ = some entry →
        entry = freshCandidate draft := by
  have hnext := nextNumber_draftVersion lib want
  constructor
  · rintro ⟨lib', hstore, hversion, hframe⟩ n entry hn hentry
    obtain rfl : n = draftVersion lib want := hn.unique hnext
    have hnew := (writeCandidate_eq_ok hstore).2 ⟨want, draftVersion lib want⟩
    rw [if_pos rfl, hentry, Option.map_some, Option.getD_some, hframe _ entry hentry] at hnew
    rw [hframe _ entry hentry, Option.map_some, Option.some.injEq] at hversion
    rw [← hversion]
    exact Option.some.inj hnew
  · intro hfree
    have hentry : ∀ entry, lib.get? ⟨want, draftVersion lib want⟩ = some entry →
        entry = freshCandidate draft := fun entry => hfree _ entry hnext
    have hok : ∃ lib', lib.writeCandidate ⟨want, draftVersion lib want⟩ draft = .ok lib' := by
      apply writeCandidate_isOk
      intro entry status hget hstatus
      rw [hentry entry hget] at hstatus
      rw [← Option.some.inj hstatus]
      rfl
    obtain ⟨lib', hlib'⟩ := hok
    have hget := (writeCandidate_eq_ok hlib').2
    have hnew : lib'.get? ⟨want, draftVersion lib want⟩ = some (freshCandidate draft) := by
      rw [hget, if_pos rfl]
      cases hold : lib.get? ⟨want, draftVersion lib want⟩ with
      | none => rfl
      | some entry =>
        rw [hentry entry hold]
        rfl
    refine ⟨lib', hlib', by rw [hnew]; rfl, fun ref entry href => ?_⟩
    by_cases hsame : ref = ⟨want, draftVersion lib want⟩
    · rw [hsame] at href ⊢
      rw [hnew, hentry entry href]
    · rw [hget, if_neg hsame]
      exact href

/-- An approved first version, and a second one that is still a candidate with two applications. -/
def twoVersions : Library where
  entries :=
    { rows := [
        (⟨"tidy-notes", 1⟩,
          { version := { taskClass := "repo-chore", usesUnique := List.nodup_nil }
            status := some { lifecycle := .approved
                             activeRetrievable := inactive_retrievable .approved } }),
        (⟨"tidy-notes", 2⟩,
          { version := { taskClass := "repo-chore", usesUnique := List.nodup_nil }
            status := some { lifecycle := .candidate
                             activeRetrievable := inactive_retrievable .candidate }
            stats := some { predictiveTrust := { applications := 2 } } })]
      nodup := by decide }
  index := Table.empty
  queue := []

/-- The draft lands on the second version: its text is lost and the statistics are reset. -/
theorem not_stores_fresh_two_versions :
    ¬ StoresFresh twoVersions "tidy-notes"
      { taskClass := "docs", usesUnique := List.nodup_nil } := by
  rintro ⟨lib', -, hversion, hframe⟩
  have hnumber : draftVersion twoVersions "tidy-notes" = 2 := by decide +kernel
  rw [hnumber, hframe ⟨"tidy-notes", 2⟩ _ rfl, Option.map_some, Option.some.injEq] at hversion
  have hclass := congrArg SkillVersion.taskClass hversion
  revert hclass
  decide

end Recertia.Skill
