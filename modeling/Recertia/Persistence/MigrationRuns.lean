import Recertia.Lib.LockedWriter
import Recertia.Persistence.MigrationSpec

/-! Openers of one database that migrate it at the same time. -/
namespace Recertia.Persistence

open Fallible LockedWriter

/-- A transaction of the runner between two statements. -/
structure Tx (σ : Type*) where
  appliedRows : Table String (Option String)
  db : Db σ
  /-- the file whose statements run, with those that are still to run -/
  running : Option (MigrationFile × List String) := none
  rest : List MigrationFile
  newly : List String := []

variable {σ : Type*} (sqlite : Sqlite σ)

def Tx.step (tx : Tx σ) : Except MigrateError (Tx σ ⊕ Db σ × Applied) :=
  match tx.running with
  | some (file, statement :: statements) =>
    (sqlite.execute statement tx.db).mapError .sqlite |>.map fun db =>
      .inl { tx with db, running := some (file, statements) }
  | some (file, []) =>
    (record file tx.db).mapError .sqlite |>.map fun db =>
      .inl { tx with db, running := none, newly := tx.newly ++ [file.version] }
  | none =>
    match tx.rest with
    | [] => .ok (.inr (tx.db, ⟨tx.newly, none⟩))
    | file :: files =>
      match tx.appliedRows.get? file.version with
      | none => .ok (.inl { tx with running := some (file, file.statements sqlite), rest := files })
      | some previous =>
        if isBlank previous then
          (backfill file tx.db).mapError .sqlite |>.map fun db => .inl { tx with db, rest := files }
        else if previous ≠ some file.digest then
          .ok (.inr (tx.db, ⟨tx.newly, some file.version⟩))
        else .ok (.inl { tx with rest := files })

/-- A call of `apply_migrations`, statement by statement. -/
def opener (files : List MigrationFile) :
    Program (Db σ) (Tx σ) Applied (List String) MigrateError where
  glance db := (checkStatements sqlite files).map fun _ => db.records.recorded.isSome
  read db := (needsWrite files db.records).map fun wait => if wait then none else some []
  start db :=
    { appliedRows := db.records.ensured
      db := { db with records := .checked db.records.ensured }
      rest := files }
  step := Tx.step sqlite
  outcome := Applied.outcome

/-- What is left of a transaction, in one go. -/
def Tx.finish (tx : Tx σ) : Except MigrateError (Db σ × Applied) :=
  match tx.running with
  | none => (migrateFiles sqlite tx.appliedRows tx.rest tx.newly tx.db).mapError .sqlite
  | some (file, statements) =>
    (do
      let db ← runStatements sqlite statements tx.db
      let db ← record file db
      migrateFiles sqlite tx.appliedRows tx.rest (tx.newly ++ [file.version]) db : Except String _)
        |>.mapError .sqlite

theorem finish_step (tx : Tx σ) :
    tx.finish sqlite = following (Tx.finish sqlite) (tx.step sqlite) := by
  obtain ⟨appliedRows, db, running, rest, newly⟩ := tx
  rcases running with _ | ⟨file, _ | ⟨statement, statements⟩⟩
  · cases rest with
    | nil => rfl
    | cons file files =>
      simp only [Tx.step, Tx.finish, migrateFiles]
      cases appliedRows.get? file.version with
      | none => rfl
      | some previous =>
        dsimp only
        split
        · cases backfill file db <;> rfl
        · split <;> rfl
  · simp only [Tx.step, Tx.finish, runStatements, List.foldlM_nil, pure_bind]
    cases record file db <;> rfl
  · simp only [Tx.step, Tx.finish, runStatements, List.foldlM_cons]
    cases sqlite.execute statement db <;> rfl

theorem opener_computes (files : List MigrationFile) :
    Computes (opener sqlite files) (lockedPass sqlite files) (Tx.finish sqlite) where
  start _ := rfl
  step := finish_step sqlite

/-! ### What each pass adds -/

section
variable {sqlite} {files : List MigrationFile}

/-- A pass applies a version exactly when it is recorded behind it and was not before. -/
theorem lockedPass_records (hkeep : KeepsRecords sqlite files)
    (hnodup : (files.map MigrationFile.version).Nodup) {db db' : Db σ} {applied : Applied}
    (h : lockedPass sqlite files db = .ok (db', applied)) (version : String) :
    applied.newly.count version + (if db.records.ensured.get? version = none then 0 else 1) =
      if db'.records.ensured.get? version = none then 0 else 1 := by
  obtain ⟨pre, post, rows', hsplit, hran⟩ := lockedPass_spec hkeep hnodup h
  have hensured : db'.records.ensured = rows' := by
    rw [hran.records]
    rfl
  have hnewly : applied.newly =
      (pre.filter fun g => db.records.ensured.get? g.version = none).map MigrationFile.version :=
    hran.newly.trans (List.nil_append _)
  have hpre : (pre.map MigrationFile.version).Nodup := by
    rw [hsplit, List.map_append] at hnodup
    exact hnodup.of_append_left
  have hsub : applied.newly.Sublist (pre.map MigrationFile.version) := by
    rw [hnewly]
    exact List.filter_sublist.map _
  by_cases hmem : version ∈ pre.map MigrationFile.version
  · obtain ⟨g, hg, heq⟩ := List.mem_map.mp hmem
    have hafter : db'.records.ensured.get? version ≠ none := by
      rw [hensured, ← heq, hran.recorded g hg]
      exact Option.some_ne_none _
    rw [if_neg hafter]
    by_cases hbefore : db.records.ensured.get? version = none
    · rw [if_pos hbefore]
      have hin : version ∈ applied.newly := by
        rw [hnewly]
        refine List.mem_map.mpr ⟨g, List.mem_filter.mpr ⟨hg, ?_⟩, heq⟩
        exact decide_eq_true (heq ▸ hbefore)
      exact List.count_eq_one_of_mem (hpre.sublist hsub) hin
    · rw [if_neg hbefore]
      have hout : version ∉ applied.newly := by
        rw [hnewly]
        intro hin
        obtain ⟨g', hg', heq'⟩ := List.mem_map.mp hin
        apply hbefore
        rw [← heq']
        exact of_decide_eq_true (List.mem_filter.mp hg').2
      rw [List.count_eq_zero_of_not_mem hout]
  · have hout : version ∉ applied.newly := fun hin => hmem (hsub.subset hin)
    rw [List.count_eq_zero_of_not_mem hout, hensured, hran.kept _ hmem, Nat.zero_add]

/-- A pass that has nothing to stop it, and a pass that returns, leave every file recorded. -/
theorem upToDate_of_pass (hkeep : KeepsRecords sqlite files)
    (hnodup : (files.map MigrationFile.version).Nodup) {db db' : Db σ} {applied : Applied}
    (h : lockedPass sqlite files db = .ok (db', applied))
    (hgood : UpToDate files db ∨ applied.mismatch = none) : UpToDate files db' := by
  obtain ⟨pre, post, rows', hsplit, hran⟩ := lockedPass_spec hkeep hnodup h
  cases post with
  | nil =>
    rw [List.append_nil] at hsplit
    rw [UpToDate, hran.records, hsplit]
    exact hran.recorded
  | cons f post =>
    rcases hgood with hgood | hnone
    · have hf : f ∈ files := hsplit ▸ List.mem_append_right _ List.mem_cons_self
      exact absurd (hran.changed f rfl) (not_changed_of_recorded (hgood f hf))
    · rw [hran.mismatch] at hnone
      cases hnone

/-- Over passes one after the other. -/
theorem chain_records (hkeep : KeepsRecords sqlite files)
    (hnodup : (files.map MigrationFile.version).Nodup) {db db' : Db σ} {log : List Applied}
    (h : Chain (lockedPass sqlite files) db log db') (version : String) :
    (log.flatMap Applied.newly).count version +
        (if db.records.ensured.get? version = none then 0 else 1) =
      if db'.records.ensured.get? version = none then 0 else 1 := by
  induction h with
  | nil => rw [List.flatMap_nil, List.count_nil, Nat.zero_add]
  | @snoc log mid db' applied _ hpass ih =>
    have hone := lockedPass_records hkeep hnodup hpass version
    rw [List.flatMap_append, List.count_append, List.flatMap_singleton]
    omega

end

/-! ### Runs -/

/-- A run of `apply_migrations` ends in one of four ways. Whatever openers of one database do at the
same time, what they commit is what passes under the lock do one after the other; each file is
applied at most once, none that was recorded is, and once an opener has returned every file is
recorded and each that was not at the start has been applied exactly once. -/
theorem migrations_atomic_and_once (sqlite : Sqlite σ) (files : List MigrationFile)
    (hnodup : (files.map MigrationFile.version).Nodup) (hkeep : KeepsRecords sqlite files)
    (db : Db σ) :
    Ends sqlite files db (applyMigrations sqlite files db).1 (applyMigrations sqlite files db).2 ∧
    ∀ labels s, (system (opener sqlite files)).run { committed := db } labels = some s →
      Chain (lockedPass sqlite files) db s.log s.committed ∧
      (∀ version, (s.log.flatMap Applied.newly).count version ≤ 1) ∧
      (∀ f ∈ files, db.records.ensured.get? f.version ≠ none →
        f.version ∉ s.log.flatMap Applied.newly) ∧
      ∀ client newly, s.phase client = .returned newly → UpToDate files s.committed ∧
        ∀ f ∈ files, db.records.ensured.get? f.version = none →
          (s.log.flatMap Applied.newly).count f.version = 1 := by
  refine ⟨applyMigrations_ends hkeep hnodup db, fun labels s hrun => ?_⟩
  have hchain : Chain (lockedPass sqlite files) db s.log s.committed :=
    chain_of_run (opener_computes sqlite files) hrun
  have hcount := chain_records hkeep hnodup hchain
  refine ⟨hchain, fun version => ?_, fun f hf hrecorded hmem => ?_, fun client newly hclient => ?_⟩
  · have h := hcount version
    split at h <;> split at h <;> omega
  · have hpos : 0 < (s.log.flatMap Applied.newly).count f.version := List.count_pos_iff.mpr hmem
    have h := hcount f.version
    rw [if_neg hrecorded] at h
    split at h <;> omega
  · have hgood : UpToDate files s.committed := by
      apply good_of_returned (opener_computes sqlite files) _ _ _ hrun hclient
      · intro db newly hread
        change (needsWrite files db.records).map _ = _ at hread
        cases hneeds : needsWrite files db.records with
        | error e =>
          rw [hneeds] at hread
          cases hread
        | ok wait =>
          cases wait with
          | true =>
            rw [hneeds] at hread
            cases hread
          | false => exact needsWrite_eq_false hneeds
      · intro db db' applied hpass hgood
        exact upToDate_of_pass hkeep hnodup hpass (.inl hgood)
      · intro db db' applied newly hpass houtcome
        refine upToDate_of_pass hkeep hnodup hpass (.inr ?_)
        change applied.outcome = _ at houtcome
        cases hmismatch : applied.mismatch with
        | none => rfl
        | some version =>
          rw [Applied.outcome, hmismatch] at houtcome
          cases houtcome
    refine ⟨hgood, fun f hf hnew => ?_⟩
    have h := hcount f.version
    have hrecorded : s.committed.records.ensured.get? f.version ≠ none := by
      rw [hgood f hf]
      exact Option.some_ne_none _
    rw [if_pos hnew, if_neg hrecorded] at h
    exact h

/-! ### A database of table names -/

/-- A database that knows two statements. -/
def tableNames : Sqlite (List String) where
  completeStatement text := text.getLast? = some ';'
  execute statement db :=
    if statement = "-- id: 001\nCREATE TABLE t (x);" then
      if "t" ∈ db.data then .error "table t already exists" else .ok { db with data := ["t"] }
    else if statement = "DELETE FROM schema_migrations;" then
      .ok { db with records := .checked .empty }
    else .error "syntax error"

def noTables : Db (List String) := ⟨.missing, []⟩

def createTable : MigrationFile :=
  ⟨"001_init.sqlite.sql", "-- id: 001\nCREATE TABLE t (x);\n", "5f21", by decide⟩

def forgetAll : MigrationFile :=
  ⟨"002.sqlite.sql", "DELETE FROM schema_migrations;", "9c04", by decide⟩

def commitEarly : MigrationFile := ⟨"003.sqlite.sql", "/* now */ commit;", "77aa", by decide⟩

theorem createTable_keeps : KeepsRecords tableNames [createTable] := by
  intro file hfile statement hstatement db db' h
  have hstatements : createTable.statements tableNames = ["-- id: 001\nCREATE TABLE t (x);"] := by
    decide +kernel
  cases List.mem_singleton.mp hfile
  rw [hstatements] at hstatement
  cases List.mem_singleton.mp hstatement
  simp only [tableNames, if_true] at h
  split at h
  · cases h
  · cases h
    rfl

/-- Two openers that have both seen the database without its table. -/
theorem two_openers_apply_once : ∃ s,
    (system (opener tableNames [createTable])).run { committed := noTables }
      [.glance 0, .glance 1, .lock 0, .work 0, .work 0, .work 0, .work 0, .lock 1, .work 1, .work 1]
        = some s ∧
    s.phase 0 = .returned ["001"] ∧ s.phase 1 = .returned [] ∧ UpToDate [createTable] s.committed ∧
    (s.log.flatMap Applied.newly).count "001" = 1 := by
  have hrun : ((system (opener tableNames [createTable])).run { committed := noTables }
      [.glance 0, .glance 1, .lock 0, .work 0, .work 0, .work 0, .work 0, .lock 1, .work 1, .work 1]
        ).map (fun s => (s.phase 0, s.phase 1)) =
      some (.returned ["001"], .returned []) := by decide +kernel
  obtain ⟨s, hs, hphases⟩ := Option.map_eq_some_iff.mp hrun
  obtain ⟨hfirst, hsecond⟩ := Prod.mk.inj hphases
  have honce := (migrations_atomic_and_once tableNames [createTable] (List.nodup_singleton _)
    createTable_keeps noTables).2 _ s hs
  obtain ⟨hupToDate, hcount⟩ := honce.2.2.2 0 _ hfirst
  have hversion : createTable.version = "001" := by decide +kernel
  exact ⟨s, hs, hfirst, hsecond, hupToDate, hversion ▸ hcount createTable (List.mem_singleton_self _)
    rfl⟩

/-- A migration that deletes records takes them from the files before it, and the next run meets
their tables; a statement that the runner refuses is neither a changed checksum nor a failure of a
statement; and a file that is recorded is not applied at all. -/
theorem records_forgotten :
    (applyMigrations tableNames [createTable, forgetAll] noTables).1 = .ok ["001", "002"] ∧
    ¬ UpToDate [createTable, forgetAll]
      (applyMigrations tableNames [createTable, forgetAll] noTables).2 ∧
    (applyMigrations tableNames [createTable, forgetAll]
      (applyMigrations tableNames [createTable, forgetAll] noTables).2).1 =
        .error (.sqlite "table t already exists") ∧
    (applyMigrations tableNames [commitEarly] noTables).1 = .error (.refused "003" "COMMIT") ∧
    (applyMigrations tableNames [createTable]
      (applyMigrations tableNames [createTable] noTables).2).1 = .ok [] := by
  refine ⟨by decide +kernel, ?_, by decide +kernel, by decide +kernel, by decide +kernel⟩
  intro h
  have hfirst := h createTable List.mem_cons_self
  have hgone : (applyMigrations tableNames [createTable, forgetAll] noTables).2.records.ensured.get?
      createTable.version = none := by decide +kernel
  rw [RecordedIn, hgone] at hfirst
  cases hfirst

end Recertia.Persistence
