import Recertia.Retrieval.SkillIndex

/-! What a write that raises leaves of the index. -/
namespace Recertia.Retrieval

open Skill (SkillRef)
open ImplicitTx

section FailedWrite
variable {W : Type*} (m : Machine W)
variable {V : Type*} (embed : String → V) (cosine : V → V → ℚ)

/-- The table of rows inserted one after the other, the first of a version. -/
def indexed (rows : List Row) : Table SkillRef Row :=
  rows.foldl (fun skills row => skills.insertOrIgnore row.ref row) .empty

def ftsRow (row : Row) : SkillRef × String := (row.ref, row.document)

/-- The index holds already what the first `n` statements of a rebuild leave: where some are done,
its tables are the rows inserted so far, and then its metadata are those of the rebuild. -/
structure RebuildHeld (rows : List Row) (fingerprint : Option String) (n : ℕ) (c : Content) :
    Prop where
  skills : 1 ≤ n → c.skills = indexed (rows.take (n - 3))
  fts : 2 ≤ n → c.fts = (rows.take (n - 3 - rows.length)).map ftsRow
  snapshot : 5 + 2 * rows.length ≤ n → c.snapshotId = some (c.computeSnapshotId m)
  fingerprint : 6 + 2 * rows.length ≤ n → ∀ f ∈ fingerprint, c.libraryFingerprint = some f

/-- The index holds already what the first `n` statements of an upsert leave: between a delete and
its insert no row of the version, and from the insert on the row of the call, as the last one. -/
structure UpsertHeld (row : Row) (fingerprint : Option String) (n : ℕ) (c : Content) : Prop where
  noSkill : 2 ≤ n → n < 4 → row.ref ∉ c.skills.keys
  skillLast : 4 ≤ n → c.skills.rows.getLast? = some (row.ref, row)
  noFts : 3 ≤ n → n < 5 → row.ref ∉ c.fts.map Prod.fst
  ftsLast : 5 ≤ n → c.fts = c.fts.filter (fun entry => entry.1 ≠ row.ref) ++ [ftsRow row]
  snapshot : 7 ≤ n → c.snapshotId = some (c.computeSnapshotId m)
  fingerprint : 8 ≤ n → ∀ f ∈ fingerprint, c.libraryFingerprint = some f

def IndexWrite.Held : IndexWrite → ℕ → Content → Prop
  | .rebuild rows fingerprint => RebuildHeld m rows fingerprint
  | .upsert row fingerprint => UpsertHeld m row fingerprint

/-- A write that raises was the first to change anything, or changed nothing that was not so
before, or has been rolled back by itself to contents that were committed. -/
def SkillIndex.Undisturbed (s : SkillIndex V) (w : IndexWrite) (fault : Option Fault) : Prop :=
  if rolledBack (Content.exec m) w.stmts fault s.conn.live then s.conn.live = s.conn.committed
  else w.Held m (completed (Content.exec m) w.stmts (fault.map Fault.position) s.conn.live)
    s.conn.live

/-- Two index objects whose contents, committed contents and answers are the same. -/
structure SameAnswers (a b : SkillIndex V) : Prop where
  seen : a.conn.live = b.conn.live
  committed : a.conn.committed = b.conn.committed
  snapshot : a.snapshotId m = b.snapshotId m
  fresh : ∀ fingerprint, a.isFresh fingerprint = b.isFresh fingerprint
  lexical : ∀ query k, a.lexicalTopK m query k = b.lexicalTopK m query k
  vector : ∀ query k qEmb, (a.vectorTopK embed cosine query k qEmb).1 =
    (b.vectorTopK embed cosine query k qEmb).1

/-! ### The contents after some statements -/

theorem after_take_closing (fingerprint : Option String) (j : ℕ) (c : Content) :
    after (Content.exec m) ((closingStmts fingerprint).take j) c =
      { c with
        snapshotId := if 2 ≤ j then some (c.computeSnapshotId m) else c.snapshotId
        libraryFingerprint :=
          if 3 ≤ j then fingerprint.or c.libraryFingerprint else c.libraryFingerprint } := by
  cases fingerprint with
  | none =>
    match j with
    | 0 | 1 | 2 | j + 3 => simp [closingStmts, after, Content.exec, Content.computeSnapshotId]
  | some f =>
    match j with
    | 0 | 1 | 2 | 3 | j + 4 =>
      simp [closingStmts, after, Content.exec, Content.computeSnapshotId]

theorem after_insertSkills (rows : List Row) (c : Content) :
    after (Content.exec m) (rows.map .insertSkill) c =
      { c with
        skills := rows.foldl (fun skills row => skills.insertOrIgnore row.ref row) c.skills } := by
  induction rows generalizing c with
  | nil => rfl
  | cons row rows ih =>
    have hrow : (Content.exec m (.insertSkill row) c).getD c =
        { c with skills := c.skills.insertOrIgnore row.ref row } := by
      simp only [Content.exec, Table.insertOrIgnore]
      cases c.skills.insert row.ref row <;> rfl
    rw [List.map_cons, after, List.foldl_cons, hrow, ← after, ih, List.foldl_cons]

theorem after_insertFts (rows : List Row) (c : Content) :
    after (Content.exec m) (rows.map .insertFts) c =
      { c with fts := c.fts ++ rows.map ftsRow } := by
  induction rows generalizing c with
  | nil => simp [after]
  | cons row rows ih =>
    rw [List.map_cons, after, List.foldl_cons, ← after, ih]
    simp [Content.exec, ftsRow]

/-- The contents after the first statements of a rebuild. -/
theorem after_take_rebuild (rows : List Row) (fingerprint : Option String) (n : ℕ) (c : Content) :
    after (Content.exec m) ((IndexWrite.rebuild rows fingerprint).stmts.take n) c =
      { skills := if 1 ≤ n then indexed (rows.take (n - 3)) else c.skills
        fts := if 2 ≤ n then (rows.take (n - 3 - rows.length)).map ftsRow else c.fts
        snapshotId :=
          if 5 + 2 * rows.length ≤ n then
            some (Content.computeSnapshotId m { skills := indexed rows }) else c.snapshotId
        libraryFingerprint :=
          if 6 + 2 * rows.length ≤ n then fingerprint.or c.libraryFingerprint
          else c.libraryFingerprint } := by
  have hopening : after (Content.exec m)
      (([.deleteSkills, .deleteFts, .compute] : List IndexStmt).take n) c =
        { c with
          skills := if 1 ≤ n then .empty else c.skills
          fts := if 2 ≤ n then [] else c.fts } := by
    match n with
    | 0 | 1 | 2 | n + 3 => simp [after, Content.exec]
  have hlater : 5 + 2 * rows.length ≤ n → rows.take (n - 3) = rows := fun hn =>
    List.take_of_length_le (by omega)
  simp only [IndexWrite.stmts, List.take_append, after_append, hopening, ← List.map_take,
    after_insertSkills, after_insertFts, after_take_closing, List.length_cons, List.length_nil,
    List.length_map, Content.mk.injEq]
  refine ⟨?_, ?_, ?_, ?_⟩
  · split
    · rfl
    · have hn : n = 0 := by omega
      subst hn
      rfl
  · split
    · rw [List.nil_append]
    · have hn : n - 3 - rows.length = 0 := by omega
      rw [hn, List.take_zero, List.map_nil, List.append_nil]
  · by_cases hn : 5 + 2 * rows.length ≤ n
    · rw [if_pos (by omega), if_pos hn, hlater hn, if_pos (by omega)]
      rfl
    · rw [if_neg (by omega), if_neg hn]
  · by_cases hn : 6 + 2 * rows.length ≤ n
    · rw [if_pos (by omega), if_pos hn]
    · rw [if_neg (by omega), if_neg hn]

/-- The contents after the first statements of an upsert. -/
theorem after_take_upsert (row : Row) (fingerprint : Option String) (n : ℕ) (c : Content) :
    after (Content.exec m) ((IndexWrite.upsert row fingerprint).stmts.take n) c =
      let deleted := c.skills.delete fun k _ => k = row.ref
      let noFts := c.fts.filter fun entry => entry.1 ≠ row.ref
      let inserted := deleted.insertOrIgnore row.ref row
      { skills := if 4 ≤ n then inserted else if 2 ≤ n then deleted else c.skills
        fts := if 5 ≤ n then noFts ++ [ftsRow row] else if 3 ≤ n then noFts else c.fts
        snapshotId :=
          if 7 ≤ n then some (Content.computeSnapshotId m { skills := inserted }) else c.snapshotId
        libraryFingerprint :=
          if 8 ≤ n then fingerprint.or c.libraryFingerprint else c.libraryFingerprint } := by
  have hinsert : ∀ d : Content, (Content.exec m (.insertSkill row) d).getD d =
      { d with skills := d.skills.insertOrIgnore row.ref row } := fun d => by
    simp only [Content.exec, Table.insertOrIgnore]
    cases d.skills.insert row.ref row <;> rfl
  simp only [IndexWrite.stmts, List.take_append, after_append, after_take_closing]
  rcases n with _ | _ | _ | _ | n
  -- Before the insert.
  iterate 4
    · simp [after, Content.exec]
  -- The insert is the fourth statement.
  · rcases n with _ | _ | _ | n
    all_goals
      simp only [after, List.take, List.foldl_cons, List.foldl_nil, hinsert]
      simp [Content.exec, ftsRow, Content.computeSnapshotId]

/-! ### What a write that raises leaves -/

theorem Content.eq_iff {a b : Content} : a = b ↔ a.skills = b.skills ∧ a.fts = b.fts ∧
    a.snapshotId = b.snapshotId ∧ a.libraryFingerprint = b.libraryFingerprint := by
  cases a
  cases b
  exact Content.mk.injEq .. ▸ Iff.rfl

theorem or_eq_right_iff {α : Type*} {x y : Option α} : x.or y = y ↔ ∀ a ∈ x, y = some a := by
  cases x with
  | none => simp
  | some a => simp [eq_comm]

theorem computeSnapshotId_congr {c d : Content} (h : c.skills = d.skills) :
    c.computeSnapshotId m = d.computeSnapshotId m := by
  rw [Content.computeSnapshotId, Content.computeSnapshotId, h]

/-- A rebuild that is cut off leaves the contents as they were exactly where they were those. -/
theorem rebuild_held_iff (rows : List Row) (fingerprint : Option String) (n : ℕ) (c : Content) :
    after (Content.exec m) ((IndexWrite.rebuild rows fingerprint).stmts.take n) c = c ↔
      RebuildHeld m rows fingerprint n c := by
  rw [after_take_rebuild, Content.eq_iff]
  dsimp only
  constructor
  · rintro ⟨hskills, hfts, hsnapshot, hfingerprint⟩
    refine ⟨fun hn => ?_, fun hn => ?_, fun hn => ?_, fun hn => ?_⟩
    · rw [if_pos hn] at hskills
      exact hskills.symm
    · rw [if_pos hn] at hfts
      exact hfts.symm
    · rw [if_pos (by omega), List.take_of_length_le (by omega)] at hskills
      rw [if_pos hn] at hsnapshot
      rw [← hsnapshot, computeSnapshotId_congr m hskills]
    · rw [if_pos hn] at hfingerprint
      exact or_eq_right_iff.mp hfingerprint
  · intro h
    refine ⟨ite_eq_right_iff.mpr fun hn => (h.skills hn).symm,
      ite_eq_right_iff.mpr fun hn => (h.fts hn).symm, ite_eq_right_iff.mpr fun hn => ?_,
      ite_eq_right_iff.mpr fun hn => or_eq_right_iff.mpr (h.fingerprint hn)⟩
    have hskills : c.skills = indexed rows := by
      rw [h.skills (by omega), List.take_of_length_le (by omega)]
    rw [h.snapshot hn]
    exact congrArg some (computeSnapshotId_congr m hskills.symm)

theorem filter_ref_eq_self {fts : List (SkillRef × String)} {ref : SkillRef} :
    (fts.filter fun entry => entry.1 ≠ ref) = fts ↔ ref ∉ fts.map Prod.fst := by
  rw [List.filter_eq_self]
  constructor
  · intro h hmem
    obtain ⟨entry, hentry, rfl⟩ := List.mem_map.mp hmem
    exact of_decide_eq_true (h entry hentry) rfl
  · intro h entry hentry
    apply decide_eq_true
    rintro rfl
    exact h (List.mem_map_of_mem hentry)

/-- An upsert that is cut off leaves the contents as they were exactly where they were those. -/
theorem upsert_held_iff (row : Row) (fingerprint : Option String) (n : ℕ) (c : Content) :
    after (Content.exec m) ((IndexWrite.upsert row fingerprint).stmts.take n) c = c ↔
      UpsertHeld m row fingerprint n c := by
  rw [after_take_upsert, Content.eq_iff]
  dsimp only
  constructor
  · rintro ⟨hskills, hfts, hsnapshot, hfingerprint⟩
    refine ⟨fun h2 h4 => ?_, fun h4 => ?_, fun h3 h5 => ?_, fun h5 => ?_, fun hn => ?_, fun hn => ?_⟩
    · rw [if_neg (by omega), if_pos h2] at hskills
      exact Table.delete_eq_self.mp hskills
    · rw [if_pos h4] at hskills
      exact Table.reinsert_eq_self.mp hskills
    · rw [if_neg (by omega), if_pos h3] at hfts
      exact filter_ref_eq_self.mp hfts
    · rw [if_pos h5] at hfts
      exact hfts.symm
    · rw [if_pos (by omega)] at hskills
      rw [if_pos hn] at hsnapshot
      rw [← hsnapshot, computeSnapshotId_congr m hskills]
    · rw [if_pos hn] at hfingerprint
      exact or_eq_right_iff.mp hfingerprint
  · intro h
    refine ⟨?_, ?_, ite_eq_right_iff.mpr fun hn => ?_,
      ite_eq_right_iff.mpr fun hn => or_eq_right_iff.mpr (h.fingerprint hn)⟩
    · split
      · rename_i h4
        exact Table.reinsert_eq_self.mpr (h.skillLast h4)
      · exact ite_eq_right_iff.mpr fun h2 => Table.delete_eq_self.mpr (h.noSkill h2 (by omega))
    · split
      · rename_i h5
        exact (h.ftsLast h5).symm
      · exact ite_eq_right_iff.mpr fun h3 => filter_ref_eq_self.mpr (h.noFts h3 (by omega))
    · have hskills : c.skills =
          (c.skills.delete fun k _ => k = row.ref).insertOrIgnore row.ref row :=
        (Table.reinsert_eq_self.mpr (h.skillLast (by omega))).symm
      rw [h.snapshot hn]
      exact congrArg some (computeSnapshotId_congr m hskills).symm

theorem held_iff (w : IndexWrite) (n : ℕ) (c : Content) :
    after (Content.exec m) (w.stmts.take n) c = c ↔ w.Held m n c := by
  cases w with
  | rebuild rows fingerprint => exact rebuild_held_iff m rows fingerprint n c
  | upsert row fingerprint => exact upsert_held_iff m row fingerprint n c

/-- What a write that raises leaves of the contents. -/
theorem write_raised_live {s : SkillIndex V} {w : IndexWrite} {fault : Option Fault}
    (h : (s.write m embed w fault).2 = false) :
    (s.write m embed w fault).1.conn.live =
      if rolledBack (Content.exec m) w.stmts fault s.conn.live then s.conn.committed
      else after (Content.exec m) (w.stmts.take
        (completed (Content.exec m) w.stmts (fault.map Fault.position) s.conn.live)) s.conn.live :=
  (call_raised h).2

/-- A write that raises leaves the contents as they were exactly where it is undisturbed. -/
theorem write_raised_live_iff {s : SkillIndex V} {w : IndexWrite} {fault : Option Fault}
    (h : (s.write m embed w fault).2 = false) :
    (s.write m embed w fault).1.conn.live = s.conn.live ↔ s.Undisturbed m w fault := by
  have hlive := write_raised_live m embed h
  rw [SkillIndex.Undisturbed]
  split
  · rename_i hrolled
    rw [if_pos hrolled] at hlive
    exact ⟨fun heq => heq.symm.trans hlive, fun heq => hlive.trans heq.symm⟩
  · rename_i hkept
    rw [if_neg hkept] at hlive
    rw [← held_iff]
    exact ⟨fun heq => hlive.symm.trans heq, fun heq => hlive.trans heq⟩

/-- A write that raises changes neither what is committed nor the mirror. -/
theorem write_raised {s : SkillIndex V} {w : IndexWrite} {fault : Option Fault}
    (h : (s.write m embed w fault).2 = false) :
    (s.write m embed w fault).1.conn.committed = s.conn.committed ∧
      (s.write m embed w fault).1.embCache = s.embCache := by
  refine ⟨(call_raised h).1, ?_⟩
  have hreturned : (call (Content.exec m) w.stmts fault s.conn).2 = false := h
  simp only [SkillIndex.write, hreturned, Bool.false_eq_true, if_false]

theorem SameAnswers.refl (s : SkillIndex V) : SameAnswers m embed cosine s s :=
  ⟨rfl, rfl, rfl, fun _ => rfl, fun _ _ => rfl, fun _ _ _ => rfl⟩

/-- After a write that raises, all that any later calls see and commit is as if it had not been
made, exactly where the call was undisturbed. -/
theorem failed_write_unseen_iff {s : SkillIndex V} {w : IndexWrite} {fault : Option Fault}
    (h : (s.write m embed w fault).2 = false) :
    (∀ later, SameAnswers m embed cosine ((s.write m embed w fault).1.run m embed later)
      (s.run m embed later)) ↔ s.Undisturbed m w fault := by
  rw [← write_raised_live_iff m embed h]
  constructor
  · intro hsame
    exact (hsame []).seen
  · intro hlive later
    have hbefore : (s.write m embed w fault).1 = s := by
      obtain ⟨⟨committed, live⟩, cache⟩ := s
      obtain ⟨hcommitted, hcache⟩ := write_raised m embed h
      generalize hs' : (SkillIndex.write m embed ⟨⟨committed, live⟩, cache⟩ w fault).1 = s'
      rw [hs'] at hlive hcommitted hcache
      obtain ⟨⟨committed', live'⟩, cache'⟩ := s'
      cases hlive
      cases hcommitted
      cases hcache
      rfl
    rw [hbefore]
    exact .refl m embed cosine _

end FailedWrite

/-- A row of a version, with the defaults of the other columns. -/
def plainRow (skillId document : String) : Row where
  ref := ⟨skillId, 1⟩
  scope := .project
  lifecycle := .approved
  active := true
  curation := .humanAuthored
  applications := 0
  lastUsedAt := none
  toolFingerprint := []
  preconditions := []
  document := document

def bumpContent : Content where
  skills := indexed [plainRow "bump-dep" "bump"]
  fts := [ftsRow (plainRow "bump-dep" "bump")]
  libraryFingerprint := some "library"

def bumpIndex : SkillIndex String := ⟨⟨bumpContent, bumpContent⟩, none⟩

/-- A rebuild with an entry that is there twice. -/
def twiceLint : IndexWrite :=
  .rebuild [plainRow "lint" "lint", plainRow "lint" "lint"] (some "library")

def onceSearched : List (IndexCall × Option Fault) := [(.search, none)]

/-- A storage error at the first statement is not seen. -/
theorem first_delete_failed_unseen : SameAnswers twoDirs id (fun _ _ => 1)
    ((bumpIndex.write twoDirs id twiceLint (some ⟨0, false⟩)).1.run twoDirs id onceSearched)
    (bumpIndex.run twoDirs id onceSearched) := by
  have hraised : (bumpIndex.write twoDirs id twiceLint (some ⟨0, false⟩)).2 = false := by
    decide +kernel
  refine (failed_write_unseen_iff twoDirs id (fun _ _ => 1) hraised).mpr ?_ onceSearched
  have hkept : rolledBack (Content.exec twoDirs) twiceLint.stmts (some ⟨0, false⟩)
      bumpIndex.conn.live = false := rfl
  rw [SkillIndex.Undisturbed, hkept]
  exact ⟨fun h => absurd h (by decide), fun h => absurd h (by decide),
    fun h => absurd h (by decide), fun h => absurd h (by decide)⟩

/-- After the rebuild with a repeated entry the index has the one new skill in place of the old
one, and says that it is fresh. -/
theorem repeated_entry_seen :
    (bumpIndex.write twoDirs id twiceLint none).2 = false ∧
      (bumpIndex.write twoDirs id twiceLint none).1.isFresh "library" = true ∧
      ¬ ∀ later, SameAnswers twoDirs id (fun _ _ => 1)
        ((bumpIndex.write twoDirs id twiceLint none).1.run twoDirs id later)
        (bumpIndex.run twoDirs id later) := by
  refine ⟨by decide +kernel, by decide +kernel, fun h => ?_⟩
  have hkeys : (bumpIndex.write twoDirs id twiceLint none).1.conn.live.skills.keys =
      bumpIndex.conn.live.skills.keys := congrArg (fun c => c.skills.keys) (h []).seen
  exact absurd hkeys (by decide +kernel)

end Recertia.Retrieval
