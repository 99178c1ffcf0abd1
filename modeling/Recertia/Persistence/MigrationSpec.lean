import Recertia.Persistence.Migrations

/-! How a run of the migrations ends: with every file recorded, at the first file whose checksum has
changed, or with nothing kept. -/
namespace Recertia.Persistence

open Fallible

def RecordedIn (rows : Table String (Option String)) (file : MigrationFile) : Prop :=
  rows.get? file.version = some (some file.digest)

/-- A file that is recorded under the checksum of other bytes. -/
def ChangedIn (rows : Table String (Option String)) (file : MigrationFile) : Prop :=
  ∃ checksum, rows.get? file.version = some checksum ∧ isBlank checksum = false ∧
    checksum ≠ some file.digest

variable {σ : Type*} {sqlite : Sqlite σ}

/-- The statements of the files leave `schema_migrations` alone. -/
def KeepsRecords (sqlite : Sqlite σ) (files : List MigrationFile) : Prop :=
  ∀ file ∈ files, ∀ statement ∈ file.statements sqlite, ∀ db db',
    sqlite.execute statement db = .ok db' → db'.records = db.records

theorem isBlank_digest (file : MigrationFile) : isBlank (some file.digest) = false := by
  have hne := file.digest_ne
  simp [isBlank, hne]

theorem not_changed_of_recorded {rows : Table String (Option String)} {file : MigrationFile}
    (h : RecordedIn rows file) : ¬ ChangedIn rows file := by
  rintro ⟨checksum, hget, -, hne⟩
  rw [h] at hget
  exact hne (Option.some.inj hget).symm

/-! ### The effect of a statement, and of a row -/

theorem records_runStatements {statements : List String}
    (hkeep : ∀ statement ∈ statements, ∀ db db', sqlite.execute statement db = .ok db' →
      db'.records = db.records) {db db' : Db σ}
    (h : runStatements sqlite statements db = .ok db') : db'.records = db.records := by
  induction statements generalizing db with
  | nil =>
    cases h
    rfl
  | cons statement statements ih =>
    rw [runStatements, List.foldlM_cons] at h
    obtain ⟨mid, hmid, hrest⟩ := bind_eq_ok.mp h
    have hfirst : mid.records = db.records := hkeep statement List.mem_cons_self db mid hmid
    have hkeep' := fun s hs => hkeep s (List.mem_cons_of_mem statement hs)
    exact (ih hkeep' hrest).trans hfirst

theorem record_eq_ok {file : MigrationFile} {db db' : Db σ} {rows : Table String (Option String)}
    (hdb : db.records = .checked rows) (h : record file db = .ok db') :
    ∃ rows', db'.records = .checked rows' ∧ ∀ version, rows'.get? version =
      if version = file.version then some (some file.digest) else rows.get? version := by
  simp only [record, hdb] at h
  split at h
  · rename_i rows' hinsert
    cases h
    exact ⟨rows', rfl, Table.get?_insert hinsert⟩
  · cases h

theorem backfill_eq_ok {file : MigrationFile} {db db' : Db σ}
    {rows : Table String (Option String)} {previous : Option String}
    (hdb : db.records = .checked rows) (hrow : rows.get? file.version = some previous)
    (h : backfill file db = .ok db') :
    ∃ rows', db'.records = .checked rows' ∧ ∀ version, rows'.get? version =
      if version = file.version then some (some file.digest) else rows.get? version := by
  simp only [backfill, hdb] at h
  cases h
  refine ⟨_, rfl, fun version => ?_⟩
  rw [Table.get?_update]
  by_cases hversion : version = file.version
  · rw [if_pos hversion, hversion, hrow]
    simp
  · rw [if_neg hversion]
    simp [hversion]

/-! ### The loop -/

/-- How the loop returns: it is through with the files of `pre`, and stops at the head of `post`. -/
structure Ran (sqlite : Sqlite σ) (appliedRows rows rows' : Table String (Option String))
    (pre post : List MigrationFile) (newly : List String) (db db' : Db σ) (applied : Applied) :
    Prop where
  unchanged : ∀ g ∈ pre, ¬ ChangedIn appliedRows g
  changed : ∀ f ∈ post.head?, ChangedIn appliedRows f
  mismatch : applied.mismatch = post.head?.map MigrationFile.version
  alone : migrateFiles sqlite appliedRows pre newly db = .ok (db', ⟨applied.newly, none⟩)
  records : db'.records = .checked rows'
  recorded : ∀ g ∈ pre, RecordedIn rows' g
  kept : ∀ version, version ∉ pre.map MigrationFile.version →
    rows'.get? version = rows.get? version
  newly : applied.newly = newly ++
    (pre.filter fun g => appliedRows.get? g.version = none).map MigrationFile.version

/-- The loop that has not got through any file. -/
theorem Ran.stopped {appliedRows rows : Table String (Option String)} {post : List MigrationFile}
    {newly : List String} {db : Db σ} (hdb : db.records = .checked rows)
    (hchanged : ∀ f ∈ post.head?, ChangedIn appliedRows f) :
    Ran sqlite appliedRows rows rows [] post newly db db
      ⟨newly, post.head?.map MigrationFile.version⟩ where
  unchanged _ hg := absurd hg List.not_mem_nil
  changed := hchanged
  mismatch := rfl
  alone := rfl
  records := hdb
  recorded _ hg := absurd hg List.not_mem_nil
  kept _ _ := rfl
  newly := (List.append_nil newly).symm

theorem migrateFiles_unrecorded {appliedRows : Table String (Option String)} {file : MigrationFile}
    {newly : List String} {db mid db' : Db σ} (hrow : appliedRows.get? file.version = none)
    (hrun : runStatements sqlite (file.statements sqlite) db = .ok mid)
    (hrecord : record file mid = .ok db') (files : List MigrationFile) :
    migrateFiles sqlite appliedRows (file :: files) newly db =
      migrateFiles sqlite appliedRows files (newly ++ [file.version]) db' := by
  rw [migrateFiles]
  simp only [hrow, hrun]
  change (record file mid >>= _) = _
  rw [hrecord]
  rfl

theorem migrateFiles_blank {appliedRows : Table String (Option String)} {file : MigrationFile}
    {newly : List String} {db db' : Db σ} {previous : Option String}
    (hrow : appliedRows.get? file.version = some previous) (hblank : isBlank previous = true)
    (hbackfill : backfill file db = .ok db') (files : List MigrationFile) :
    migrateFiles sqlite appliedRows (file :: files) newly db =
      migrateFiles sqlite appliedRows files newly db' := by
  rw [migrateFiles]
  simp only [hrow]
  rw [if_pos hblank, hbackfill]
  rfl

theorem migrateFiles_recorded {appliedRows : Table String (Option String)} {file : MigrationFile}
    {newly : List String} {db : Db σ} (hrow : RecordedIn appliedRows file)
    (files : List MigrationFile) :
    migrateFiles sqlite appliedRows (file :: files) newly db =
      migrateFiles sqlite appliedRows files newly db := by
  rw [RecordedIn] at hrow
  rw [migrateFiles]
  simp only [hrow]
  rw [if_neg (by rw [isBlank_digest]; exact Bool.false_ne_true), if_neg (by rw [not_not])]

/-- One more file in front. -/
theorem Ran.cons {appliedRows rows mid rows' : Table String (Option String)}
    {pre post : List MigrationFile} {newly newly₁ : List String} {db db₁ db' : Db σ}
    {applied : Applied} {file : MigrationFile}
    (hnew : file.version ∉ pre.map MigrationFile.version)
    (hrun : Ran sqlite appliedRows mid rows' pre post newly₁ db₁ db' applied)
    (hunchanged : ¬ ChangedIn appliedRows file)
    (hmid : ∀ version, mid.get? version =
      if version = file.version then some (some file.digest) else rows.get? version)
    (hnewly : newly₁ = newly ++ if appliedRows.get? file.version = none then [file.version] else [])
    (hstep : migrateFiles sqlite appliedRows (file :: pre) newly db =
      migrateFiles sqlite appliedRows pre newly₁ db₁) :
    Ran sqlite appliedRows rows rows' (file :: pre) post newly db db' applied where
  unchanged g hg := by
    rcases List.mem_cons.mp hg with rfl | hg
    · exact hunchanged
    · exact hrun.unchanged g hg
  changed := hrun.changed
  mismatch := hrun.mismatch
  alone := hstep.trans hrun.alone
  records := hrun.records
  recorded g hg := by
    rcases List.mem_cons.mp hg with rfl | hg
    · rw [RecordedIn, hrun.kept _ hnew, hmid, if_pos rfl]
    · exact hrun.recorded g hg
  kept version hversion := by
    rw [List.map_cons, List.mem_cons, not_or] at hversion
    rw [hrun.kept version hversion.2, hmid, if_neg hversion.1]
  newly := by
    rw [hrun.newly, hnewly, List.append_assoc, List.filter_cons]
    simp only [decide_eq_true_eq]
    split <;> rfl

theorem migrateFiles_spec {appliedRows : Table String (Option String)} {files : List MigrationFile}
    (hkeep : KeepsRecords sqlite files) (hnodup : (files.map MigrationFile.version).Nodup)
    {rows : Table String (Option String)}
    (hagree : ∀ f ∈ files, rows.get? f.version = appliedRows.get? f.version)
    {newly : List String} {db db' : Db σ} {applied : Applied} (hdb : db.records = .checked rows)
    (h : migrateFiles sqlite appliedRows files newly db = .ok (db', applied)) :
    ∃ pre post rows', files = pre ++ post ∧
      Ran sqlite appliedRows rows rows' pre post newly db db' applied := by
  induction files generalizing newly db rows with
  | nil =>
    cases h
    exact ⟨[], [], rows, rfl, Ran.stopped hdb fun f hf => absurd hf (Option.not_mem_none f)⟩
  | cons file files ih =>
    obtain ⟨hfile, hfiles⟩ := List.nodup_cons.mp hnodup
    have hkeep' : KeepsRecords sqlite files := fun g hg => hkeep g (List.mem_cons_of_mem file hg)
    have hother {mid : Table String (Option String)} (hmid : ∀ version, mid.get? version =
        if version = file.version then some (some file.digest) else rows.get? version) :
        ∀ g ∈ files, mid.get? g.version = appliedRows.get? g.version := by
      intro g hg
      rw [hmid, if_neg, hagree g (List.mem_cons_of_mem file hg)]
      intro heq
      exact hfile (heq ▸ List.mem_map_of_mem hg)
    have hnew {pre post : List MigrationFile} (hsplit : files = pre ++ post) :
        file.version ∉ pre.map MigrationFile.version := by
      intro hmem
      apply hfile
      rw [hsplit, List.map_append]
      exact List.mem_append_left _ hmem
    rw [migrateFiles] at h
    cases hprevious : appliedRows.get? file.version with
    | none =>
      simp only [hprevious] at h
      obtain ⟨db₁, hrun, h⟩ := bind_eq_ok.mp h
      obtain ⟨db₂, hrecord, h⟩ := bind_eq_ok.mp h
      have hdb₁ : db₁.records = .checked rows :=
        (records_runStatements (hkeep file List.mem_cons_self) hrun).trans hdb
      obtain ⟨mid, hdb₂, hmid⟩ := record_eq_ok hdb₁ hrecord
      obtain ⟨pre, post, rows', hsplit, hran⟩ := ih hkeep' hfiles (hother hmid) hdb₂ h
      refine ⟨file :: pre, post, rows', by rw [hsplit]; rfl, ?_⟩
      have hunchanged : ¬ ChangedIn appliedRows file := by
        rintro ⟨checksum, hget, -⟩
        rw [hprevious] at hget
        cases hget
      exact hran.cons (hnew hsplit) hunchanged hmid (by rw [if_pos hprevious])
        (migrateFiles_unrecorded hprevious hrun hrecord pre)
    | some previous =>
      have hrow : rows.get? file.version = some previous :=
        (hagree file List.mem_cons_self).trans hprevious
      have hnot : appliedRows.get? file.version ≠ none := by
        rw [hprevious]
        exact Option.some_ne_none previous
      simp only [hprevious] at h
      split at h
      · rename_i hblank
        obtain ⟨db₁, hbackfill, h⟩ := bind_eq_ok.mp h
        obtain ⟨mid, hdb₁, hmid⟩ := backfill_eq_ok hdb hrow hbackfill
        obtain ⟨pre, post, rows', hsplit, hran⟩ := ih hkeep' hfiles (hother hmid) hdb₁ h
        refine ⟨file :: pre, post, rows', by rw [hsplit]; rfl, ?_⟩
        have hunchanged : ¬ ChangedIn appliedRows file := by
          rintro ⟨checksum, hget, hfilled, -⟩
          rw [hprevious] at hget
          cases hget
          rw [hblank] at hfilled
          cases hfilled
        exact hran.cons (hnew hsplit) hunchanged hmid (by rw [if_neg hnot, List.append_nil])
          (migrateFiles_blank hprevious hblank hbackfill pre)
      · rename_i hfilled
        split at h
        · rename_i hne
          cases h
          refine ⟨[], file :: files, rows, rfl, ?_⟩
          have hchanged : ChangedIn appliedRows file :=
            ⟨previous, hprevious, Bool.not_eq_true _ ▸ hfilled, hne⟩
          exact Ran.stopped hdb fun f hf => Option.some.inj hf ▸ hchanged
        · rename_i heq
          rw [not_not] at heq
          have hmid : ∀ version, rows.get? version =
              if version = file.version then some (some file.digest) else rows.get? version := by
            intro version
            split
            · rename_i hversion
              rw [hversion, hrow, heq]
            · rfl
          have hrecorded : RecordedIn appliedRows file := hprevious.trans (congrArg some heq)
          obtain ⟨pre, post, rows', hsplit, hran⟩ := ih hkeep' hfiles (hother hmid) hdb h
          refine ⟨file :: pre, post, rows', by rw [hsplit]; rfl, ?_⟩
          exact hran.cons (hnew hsplit) (not_changed_of_recorded hrecorded) hmid
            (by rw [if_neg hnot, List.append_nil]) (migrateFiles_recorded hrecorded pre)

theorem lockedPass_spec {files : List MigrationFile} (hkeep : KeepsRecords sqlite files)
    (hnodup : (files.map MigrationFile.version).Nodup) {db db' : Db σ} {applied : Applied}
    (h : lockedPass sqlite files db = .ok (db', applied)) :
    ∃ pre post rows', files = pre ++ post ∧
      Ran sqlite db.records.ensured db.records.ensured rows' pre post []
        { db with records := .checked db.records.ensured } db' applied := by
  unfold lockedPass at h
  dsimp only at h
  cases hrun : migrateFiles sqlite db.records.ensured files []
      { db with records := .checked db.records.ensured } with
  | error e =>
    rw [hrun] at h
    cases h
  | ok result =>
    rw [hrun] at h
    cases h
    exact migrateFiles_spec hkeep hnodup (fun _ _ => rfl) rfl hrun

/-! ### The first look -/

theorem needsWriteRows_cons (rows : Table String (Option String)) (file : MigrationFile)
    (files : List MigrationFile) :
    (RecordedIn rows file ∧ needsWriteRows rows (file :: files) = needsWriteRows rows files) ∨
    (ChangedIn rows file ∧
      needsWriteRows rows (file :: files) = .error (.checksum file.version)) ∨
    (¬ RecordedIn rows file ∧ ¬ ChangedIn rows file ∧
      needsWriteRows rows (file :: files) = .ok true) := by
  rw [needsWriteRows]
  cases hrow : rows.get? file.version with
  | none =>
    refine .inr (.inr ⟨?_, ?_, rfl⟩)
    · rw [RecordedIn, hrow]
      exact (Option.some_ne_none _).symm
    · rintro ⟨checksum, hget, -⟩
      rw [hrow] at hget
      cases hget
  | some checksum =>
    dsimp only
    split
    · rename_i hblank
      refine .inr (.inr ⟨?_, ?_, rfl⟩)
      · intro hrecorded
        rw [RecordedIn, hrow] at hrecorded
        rw [Option.some.inj hrecorded, isBlank_digest] at hblank
        cases hblank
      · rintro ⟨checksum', hget, hfilled, -⟩
        rw [hrow] at hget
        rw [← Option.some.inj hget, hblank] at hfilled
        cases hfilled
    · rename_i hfilled
      split
      · rename_i hne
        exact .inr (.inl ⟨⟨checksum, hrow, Bool.not_eq_true _ ▸ hfilled, hne⟩, rfl⟩)
      · rename_i heq
        rw [not_not] at heq
        exact .inl ⟨hrow.trans (congrArg some heq), rfl⟩

/-- No file waits exactly when each is recorded under its digest. -/
theorem needsWriteRows_eq_false {rows : Table String (Option String)} {files : List MigrationFile} :
    needsWriteRows rows files = .ok false ↔ ∀ f ∈ files, RecordedIn rows f := by
  induction files with
  | nil => exact iff_of_true rfl fun f hf => absurd hf List.not_mem_nil
  | cons file files ih =>
    rw [List.forall_mem_cons, ← ih]
    obtain ⟨hrecorded, heq⟩ | ⟨hchanged, heq⟩ | ⟨hnot, -, heq⟩ := needsWriteRows_cons rows file files
    · rw [heq]
      exact ⟨fun h => ⟨hrecorded, h⟩, fun h => h.2⟩
    · rw [heq]
      refine iff_of_false (fun h => by cases h) fun h => ?_
      exact not_changed_of_recorded h.1 hchanged
    · rw [heq]
      exact iff_of_false (fun h => by cases h) fun h => hnot h.1

theorem needsWriteRows_eq_error {rows : Table String (Option String)} {files : List MigrationFile}
    {e : MigrateError} (h : needsWriteRows rows files = .error e) :
    ∃ pre f post, files = pre ++ f :: post ∧ e = .checksum f.version ∧ ChangedIn rows f ∧
      ∀ g ∈ pre, RecordedIn rows g := by
  induction files with
  | nil => cases h
  | cons file files ih =>
    obtain ⟨hrecorded, heq⟩ | ⟨hchanged, heq⟩ | ⟨-, -, heq⟩ := needsWriteRows_cons rows file files
    · obtain ⟨pre, f, post, hsplit, he, hchanged, hpre⟩ := ih (heq ▸ h)
      refine ⟨file :: pre, f, post, by rw [hsplit]; rfl, he, hchanged, ?_⟩
      exact List.forall_mem_cons.mpr ⟨hrecorded, hpre⟩
    · rw [heq] at h
      cases h
      exact ⟨[], file, files, rfl, rfl, hchanged, fun g hg => absurd hg List.not_mem_nil⟩
    · rw [heq] at h
      cases h

/-- A file that waits comes before the first one that has changed. -/
theorem needsWriteRows_before_changed {rows : Table String (Option String)}
    {pre post : List MigrationFile} {f : MigrationFile} (hf : ChangedIn rows f)
    (hpre : ∀ g ∈ pre, ¬ ChangedIn rows g) (h : needsWriteRows rows (pre ++ f :: post) = .ok true) :
    needsWriteRows rows pre = .ok true := by
  induction pre with
  | nil =>
    obtain ⟨hrecorded, -⟩ | ⟨-, heq⟩ | ⟨-, hnot, -⟩ := needsWriteRows_cons rows f post
    · exact absurd hf (not_changed_of_recorded hrecorded)
    · rw [List.nil_append, heq] at h
      cases h
    · exact absurd hf hnot
  | cons g pre ih =>
    obtain ⟨hg, hpre⟩ := List.forall_mem_cons.mp hpre
    rw [List.cons_append] at h
    obtain ⟨hrecorded, heq⟩ | ⟨hchanged, -⟩ | ⟨hnot, -, -⟩ :=
      needsWriteRows_cons rows g (pre ++ f :: post)
    · obtain ⟨-, heq'⟩ | ⟨hchanged, -⟩ | ⟨hnot, -, -⟩ := needsWriteRows_cons rows g pre
      · rw [heq']
        exact ih hpre (heq ▸ h)
      · exact absurd hchanged hg
      · exact absurd hrecorded hnot
    · exact absurd hchanged hg
    · obtain ⟨hrecorded, -⟩ | ⟨hchanged, -⟩ | ⟨-, -, heq'⟩ := needsWriteRows_cons rows g pre
      · exact absurd hrecorded hnot
      · exact absurd hchanged hg
      · exact heq'

/-! ### `apply_migrations` -/

/-- Every file is recorded under its digest. -/
def UpToDate (files : List MigrationFile) (db : Db σ) : Prop :=
  ∀ f ∈ files, RecordedIn db.records.ensured f

/-- The run stopped at the first file that had changed: it did what a run on the files before that
one does, and left the records of all others as they were. -/
def StoppedAt (sqlite : Sqlite σ) (files : List MigrationFile) (version : String) (db db' : Db σ) :
    Prop :=
  ∃ pre f post, files = pre ++ f :: post ∧ f.version = version ∧
    ChangedIn db.records.ensured f ∧ (∀ g ∈ pre, ¬ ChangedIn db.records.ensured g) ∧
    (∃ newly, applyMigrations sqlite pre db = (.ok newly, db')) ∧ UpToDate pre db' ∧
    ∀ g ∈ f :: post, db'.records.ensured.get? g.version = db.records.ensured.get? g.version

theorem checkStatements_eq_ok {files : List MigrationFile} :
    checkStatements sqlite files = .ok () ↔ ∀ f ∈ files, f.forbidden sqlite = none := by
  rw [checkStatements, ← List.findSome?_eq_none_iff]
  cases files.findSome? (MigrationFile.forbidden sqlite) with
  | none => exact iff_of_true rfl rfl
  | some e => exact iff_of_false (fun h => by cases h) (Option.some_ne_none e)

theorem needsWrite_eq_false {files : List MigrationFile} {records : Records}
    (h : needsWrite files records = .ok false) : ∀ f ∈ files, RecordedIn records.ensured f := by
  cases records with
  | missing => cases h
  | unchecked versions => cases h
  | checked rows => exact needsWriteRows_eq_false.mp h

/-- A database that records every file has nothing to do. -/
theorem applyMigrations_upToDate {files : List MigrationFile} {db : Db σ}
    {rows : Table String (Option String)} (hcheck : checkStatements sqlite files = .ok ())
    (hdb : db.records = .checked rows) (h : UpToDate files db) :
    applyMigrations sqlite files db = (.ok [], db) := by
  have hneeds : needsWrite files db.records = .ok false := by
    rw [UpToDate, hdb] at h
    rw [hdb]
    exact needsWriteRows_eq_false.mpr h
  unfold applyMigrations
  simp only [hcheck, hneeds]

theorem checkStatements_eq_error {files : List MigrationFile} {e : MigrateError}
    (h : checkStatements sqlite files = .error e) :
    ∃ f ∈ files, f.forbidden sqlite = some e ∧ ∃ keyword, e = .refused f.version keyword := by
  unfold checkStatements at h
  cases hfind : files.findSome? (MigrationFile.forbidden sqlite) with
  | none =>
    rw [hfind] at h
    cases h
  | some e' =>
    rw [hfind] at h
    cases h
    obtain ⟨f, hf, hforbidden⟩ := List.exists_of_findSome?_eq_some hfind
    obtain ⟨statement, -, hstatement⟩ := List.exists_of_findSome?_eq_some hforbidden
    obtain ⟨keyword, -, rfl⟩ := Option.map_eq_some_iff.mp hstatement
    exact ⟨f, hf, hforbidden, keyword, rfl⟩

/-- The run that stopped in its transaction, as one on the files before that. -/
theorem stoppedAt_of_ran {files pre post : List MigrationFile} {f : MigrationFile}
    {db db' : Db σ} {applied : Applied} {rows' : Table String (Option String)}
    (hnodup : (files.map MigrationFile.version).Nodup)
    (hcheck : checkStatements sqlite files = .ok ()) (hsplit : files = pre ++ f :: post)
    (hneeds : needsWrite files db.records = .ok true)
    (hran : Ran sqlite db.records.ensured db.records.ensured rows' pre (f :: post) []
      { db with records := .checked db.records.ensured } db' applied) :
    StoppedAt sqlite files f.version db db' := by
  have hchanged : ChangedIn db.records.ensured f := hran.changed f rfl
  have hcheck' : checkStatements sqlite pre = .ok () := by
    rw [checkStatements_eq_ok] at hcheck ⊢
    intro g hg
    exact hcheck g (hsplit ▸ List.mem_append_left _ hg)
  have hneeds' : needsWrite pre db.records = .ok true := by
    cases hrecords : db.records with
    | missing => rfl
    | unchecked versions => rfl
    | checked rows =>
      rw [hrecords, hsplit] at hneeds
      rw [hrecords] at hchanged
      apply needsWriteRows_before_changed hchanged _ hneeds
      intro g hg
      have hg' := hran.unchanged g hg
      rw [hrecords] at hg'
      exact hg'
  have hpass : lockedPass sqlite pre db = .ok (db', ⟨applied.newly, none⟩) := by
    unfold lockedPass
    dsimp only
    rw [hran.alone]
    rfl
  have hensured : db'.records.ensured = rows' := by
    rw [hran.records]
    rfl
  refine ⟨pre, f, post, hsplit, rfl, hchanged, hran.unchanged, ⟨applied.newly, ?_⟩, ?_, ?_⟩
  · unfold applyMigrations
    simp only [hcheck', hneeds', hpass]
    rfl
  · rw [UpToDate, hensured]
    exact hran.recorded
  · intro g hg
    rw [hensured]
    apply hran.kept
    intro hmem
    rw [hsplit, List.map_append, List.nodup_append] at hnodup
    exact hnodup.2.2 g.version hmem g.version (List.mem_map_of_mem hg) rfl

/-- How a run on a database may end. -/
inductive Ends (sqlite : Sqlite σ) (files : List MigrationFile) (db : Db σ) :
    Except MigrateError (List String) → Db σ → Prop
  /-- Every file is recorded, and a run behind it finds nothing to do. -/
  | returned {newly : List String} {db' : Db σ} (recorded : UpToDate files db')
    (again : applyMigrations sqlite files db' = (.ok [], db')) : Ends sqlite files db (.ok newly) db'
  | stopped {version : String} {db' : Db σ} (stopped : StoppedAt sqlite files version db db') :
    Ends sqlite files db (.error (.checksum version)) db'
  /-- A statement failed, and nothing of the run is kept. -/
  | failed {message : String} (failed : lockedPass sqlite files db = .error (.sqlite message)) :
    Ends sqlite files db (.error (.sqlite message)) db
  /-- The runner refuses a statement before it applies anything. -/
  | refused {f : MigrationFile} {keyword : String} (hf : f ∈ files)
    (forbidden : f.forbidden sqlite = some (.refused f.version keyword)) :
    Ends sqlite files db (.error (.refused f.version keyword)) db

theorem ends_checked {files : List MigrationFile} (hkeep : KeepsRecords sqlite files)
    (hnodup : (files.map MigrationFile.version).Nodup)
    (hcheck : checkStatements sqlite files = .ok ()) {db : Db σ}
    (hneeds : needsWrite files db.records = .ok true) :
    Ends sqlite files db (applyMigrations sqlite files db).1 (applyMigrations sqlite files db).2 := by
  unfold applyMigrations
  simp only [hcheck, hneeds]
  cases hpass : lockedPass sqlite files db with
  | error e =>
    have hsqlite : ∃ message, e = .sqlite message := by
      unfold lockedPass at hpass
      dsimp only at hpass
      cases hrun : migrateFiles sqlite db.records.ensured files []
          { db with records := .checked db.records.ensured } with
      | error message =>
        rw [hrun] at hpass
        exact ⟨message, (Except.error.inj hpass).symm⟩
      | ok result =>
        rw [hrun] at hpass
        cases hpass
    obtain ⟨message, rfl⟩ := hsqlite
    exact .failed hpass
  | ok result =>
    obtain ⟨db', applied⟩ := result
    obtain ⟨pre, post, rows', hsplit, hran⟩ := lockedPass_spec hkeep hnodup hpass
    dsimp only
    have hmismatch := hran.mismatch
    cases post with
    | nil =>
      rw [List.append_nil] at hsplit
      have hrecorded : UpToDate files db' := by
        rw [UpToDate, hran.records, hsplit]
        exact hran.recorded
      rw [Applied.outcome, hmismatch]
      exact .returned hrecorded (applyMigrations_upToDate hcheck hran.records hrecorded)
    | cons f post =>
      rw [Applied.outcome, hmismatch]
      exact .stopped (stoppedAt_of_ran hnodup hcheck hsplit hneeds hran)

theorem applyMigrations_ends {files : List MigrationFile} (hkeep : KeepsRecords sqlite files)
    (hnodup : (files.map MigrationFile.version).Nodup) (db : Db σ) :
    Ends sqlite files db (applyMigrations sqlite files db).1 (applyMigrations sqlite files db).2 := by
  cases hcheck : checkStatements sqlite files with
  | error e =>
    obtain ⟨f, hf, hforbidden, keyword, rfl⟩ := checkStatements_eq_error hcheck
    unfold applyMigrations
    simp only [hcheck]
    exact .refused hf hforbidden
  | ok _ =>
    cases hneeds : needsWrite files db.records with
    | error e =>
      cases hrecords : db.records with
      | missing =>
        rw [hrecords] at hneeds
        cases hneeds
      | unchecked versions =>
        rw [hrecords] at hneeds
        cases hneeds
      | checked rows =>
        -- The first look has met a changed file, and every file before it is recorded.
        have hneeds' : needsWriteRows rows files = .error e := by
          rw [hrecords] at hneeds
          exact hneeds
        obtain ⟨pre, f, post, hsplit, rfl, hchanged, hpre⟩ := needsWriteRows_eq_error hneeds'
        have hcheck' : checkStatements sqlite pre = .ok () := by
          rw [checkStatements_eq_ok] at hcheck ⊢
          intro g hg
          exact hcheck g (hsplit ▸ List.mem_append_left _ hg)
        have hupToDate : UpToDate pre db := by
          rw [UpToDate, hrecords]
          exact hpre
        unfold applyMigrations
        simp only [hcheck, hneeds]
        refine .stopped ⟨pre, f, post, hsplit, rfl, ?_, ?_, ⟨[], ?_⟩, hupToDate, fun _ _ => rfl⟩
        · rw [hrecords]
          exact hchanged
        · rw [hrecords]
          exact fun g hg => not_changed_of_recorded (hpre g hg)
        · exact applyMigrations_upToDate hcheck' hrecords hupToDate
    | ok wait =>
      cases wait with
      | false =>
        have hagain : applyMigrations sqlite files db = (.ok [], db) := by
          unfold applyMigrations
          simp only [hcheck, hneeds]
        rw [hagain]
        exact .returned (needsWrite_eq_false hneeds) hagain
      | true => exact ends_checked hkeep hnodup hcheck hneeds

end Recertia.Persistence
