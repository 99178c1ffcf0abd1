import Recertia.Lib.RwLock
import Recertia.Lib.Transition
import Recertia.Persistence.ImportMerge
import Mathlib.Data.Rat.Defs
import Mathlib.Algebra.Order.Ring.Rat

/-! The locks of a runtime root (`persistence/root_lock.py`) and those who take them: the opens of
run stores with their imports (`open_run_persistence`), backups and restores, and the API process.
A lock object belongs to one of them, so its end is the end of what it holds. -/
namespace Recertia.Persistence

open Json RwLock Transition

/-- `api.lock` and `.lock` of the runtime root, and `.tenant.lock` of each runs root. -/
inductive LockFile
  | api
  | root
  | tenant (name : String)
  deriving DecidableEq, Repr

/-- The order in which they are taken. -/
def LockFile.rank : LockFile → ℕ
  | .api => 0
  | .root => 1
  | .tenant _ => 2

/-- `RECERTIA_RUNTIME_DB_MIGRATE` -/
inductive MigrateMode
  | auto
  | off
  | manual
  deriving DecidableEq, Repr

inductive Outcome
  | closed
  /-- `RootBusy` of a lock that somebody holds -/
  | busy (lock : LockFile)
  /-- `RootBusy` of the second look: a restore brought leftover files back -/
  | leftoverAppeared
  /-- `RootBusy` of the second look of an open that is `off` -/
  | importedMeanwhile
  | migrationPending
  | importFailed (error : ImportError)
  | openFailed
  /-- `BackupError` of a lock that somebody holds -/
  | refused (lock : LockFile)
  | crashed
  deriving DecidableEq, Repr

/-- Where a participant is. `runtime` is the file that an open has chosen, `runtime.db` or the
leftover files. -/
inductive Phase
  | idle
  | importRoot (tenant : String) (deadline : ℚ)
  | importTenant (tenant : String) (deadline : ℚ)
  | importing (tenant : String)
  | openRoot (tenant : String) (runtime : Bool) (deadline : ℚ)
  | openTenant (tenant : String) (runtime : Bool) (deadline : ℚ)
  /-- under both locks, before the second look -/
  | opening (tenant : String) (runtime : Bool)
  /-- behind the second look, before the stores are open -/
  | building (tenant : String) (runtime : Bool)
  | live (tenant : String) (runtime : Bool)
  | starting
  | serving
  | archiveRoot
  /-- a backup or a restore under its locks -/
  | archiving
  | over (outcome : Outcome)
  deriving DecidableEq

/-- What a participant holds there, the newest first. -/
def Phase.holds : Phase → List (LockFile × LockMode)
  | .importTenant _ _ | .openTenant _ _ _ => [(.root, .shared)]
  | .importing t => [(.tenant t, .exclusive), (.root, .shared)]
  | .opening t _ | .building t _ | .live t _ => [(.tenant t, .shared), (.root, .shared)]
  | .serving => [(.api, .shared)]
  | .archiveRoot => [(.api, .exclusive)]
  | .archiving => [(.root, .exclusive), (.api, .exclusive)]
  | _ => []

def Phase.awaits : Phase → Option (LockFile × LockMode)
  | .importRoot _ _ | .openRoot _ _ _ => some (.root, .shared)
  | .importTenant t _ => some (.tenant t, .exclusive)
  | .openTenant t _ _ => some (.tenant t, .shared)
  | .starting => some (.api, .shared)
  | _ => none

/-- The time from which on a poll is the last; the API process waits without one. -/
def Phase.deadline : Phase → Option ℚ
  | .importRoot _ d | .importTenant _ d | .openRoot _ _ d | .openTenant _ _ d => some d
  | _ => none

/-- The runs root whose files it works on. -/
def Phase.worksOn : Phase → Option String
  | .importing t | .opening t _ | .building t _ | .live t _ => some t
  | _ => none

structure Root where
  locks : Locks LockFile ℕ := []
  phase : ℕ → Phase := fun _ => .idle
  /-- the runs root of each tenant; a `runtime.db` that has leases only counts as none -/
  files : String → RunsRoot

/-- `_resolve_runtime_db` of an open that is `off` -/
def RunsRoot.usesRuntime (root : RunsRoot) : Bool :=
  root.importComplete ||
    !(root.checkpointsDb.isSome || root.operationsDb.isSome) && root.runtimeDb.isSome

/-- The files behind the migrations and the `__init__` of the stores. -/
def RunsRoot.built (root : RunsRoot) (runtime : Bool) : RunsRoot :=
  if runtime then
    let db := root.runtimeDb.getD {}
    { root with runtimeDb := some { db with operations := .live db.operations.rebuilt } }
  else
    { root with
      checkpointsDb := some (root.checkpointsDb.getD .empty)
      operationsDb := some (.live (root.operationsDb.getD .missing).rebuilt) }

/-- The `INSERT` of a checkpoint, which raises on a key that is there. -/
def RunsRoot.saved (root : RunsRoot) (runtime : Bool) (key : CheckpointKey) (row : CheckpointRow) :
    RunsRoot :=
  if runtime then
    { root with runtimeDb := root.runtimeDb.map fun db =>
        { db with checkpoints := db.checkpoints.insertOrIgnore key row } }
  else
    { root with checkpointsDb := root.checkpointsDb.map fun db => db.insertOrIgnore key row }

/-- What the statements of `run_once` make of the operations. -/
def RunsRoot.operated (root : RunsRoot) (runtime : Bool)
    (operations : Table OperationKey OperationRow) : RunsRoot :=
  if runtime then
    { root with runtimeDb := root.runtimeDb.map fun db =>
        { db with operations := .live operations } }
  else { root with operationsDb := some (.live operations) }

inductive RootLabel
  /-- the first look of an open, without a lock -/
  | look (p : ℕ) (tenant : String) (mode : MigrateMode) (now timeout : ℚ)
  | poll (p : ℕ) (now : ℚ)
  /-- the part of an import that is committed ahead of its transaction -/
  | prepare (p : ℕ)
  | importFiles (p : ℕ) (fault : Option FaultPoint) (now timeout : ℚ)
  | recheck (p : ℕ)
  | build (p : ℕ)
  /-- an error while the stores are opened, before or behind their first writes -/
  | buildFails (p : ℕ) (written : Bool)
  | save (p : ℕ) (key : CheckpointKey) (row : CheckpointRow)
  | operate (p : ℕ) (operations : Table OperationKey OperationRow)
  | close (p : ℕ)
  | startApi (p : ℕ)
  | archive (p : ℕ)
  | archiveLock (p : ℕ)
  /-- a restore lays a file down, from any archive -/
  | extract (p : ℕ) (tenant : String) (files : RunsRoot)
  | crash (p : ℕ)

def RootLabel.actor : RootLabel → ℕ
  | .look p _ _ _ _ | .poll p _ | .prepare p | .importFiles p _ _ _ | .recheck p | .build p
  | .buildFails p _ | .save p _ _ | .operate p _ | .close p | .startApi p | .archive p
  | .archiveLock p | .extract p _ _ | .crash p => p

namespace Root

def setPhase (s : Root) (p : ℕ) (phase : Phase) : Root :=
  { s with phase := Function.update s.phase p phase }

def setFiles (s : Root) (tenant : String) (files : RunsRoot) : Root :=
  { s with files := Function.update s.files tenant files }

def take (s : Root) (p : ℕ) (lock : LockFile) (mode : LockMode) (next : Phase) : Root :=
  { s.setPhase p next with locks := acquire s.locks p lock mode }

/-- `release` of a participant's lock objects, and where it goes on. -/
def drop (s : Root) (p : ℕ) (next : Phase) : Root :=
  { s.setPhase p next with locks := releaseAll s.locks p }

/-- One turn of the polling loop of `acquire_shared` or `acquire_exclusive`. -/
def pollLock (s : Root) (p : ℕ) (lock : LockFile) (mode : LockMode) (deadline now : ℚ)
    (next : Phase) : Root :=
  if grants s.locks lock mode then s.take p lock mode next
  else if deadline ≤ now then s.drop p (.over (.busy lock))
  else s

/-- `try_exclusive` of a backup or a restore. -/
def tryLock (s : Root) (p : ℕ) (lock : LockFile) (next : Phase) : Root :=
  if grants s.locks lock .exclusive then s.take p lock .exclusive next
  else s.drop p (.over (.refused lock))

end Root

variable (loads : String → Except LoadError PyValue)

def rootStep (s : Root) : RootLabel → Option Root
  | .look p t mode now timeout =>
    match s.phase p with
    | .idle =>
      let deadline := now + max 0 timeout
      match mode with
      | .off => some (s.setPhase p (.openRoot t (s.files t).usesRuntime deadline))
      | .manual =>
        if (s.files t).pending then some (s.setPhase p (.over .migrationPending))
        else some (s.setPhase p (.openRoot t true deadline))
      | .auto =>
        if (s.files t).pending then some (s.setPhase p (.importRoot t deadline))
        else some (s.setPhase p (.openRoot t true deadline))
    | _ => none
  | .poll p now =>
    match s.phase p with
    -- Both waits share one deadline; the second lock is tried once even behind it.
    | .importRoot t d => some (s.pollLock p .root .shared d now (.importTenant t (max now d)))
    | .importTenant t d => some (s.pollLock p (.tenant t) .exclusive d now (.importing t))
    | .openRoot t r d => some (s.pollLock p .root .shared d now (.openTenant t r (max now d)))
    | .openTenant t r d => some (s.pollLock p (.tenant t) .shared d now (.opening t r))
    | .starting => some (if grants s.locks .api .shared then s.take p .api .shared .serving else s)
    | _ => none
  | .prepare p =>
    match s.phase p with
    | .importing t => some (s.setFiles t (importUnderLock loads (some .rebuilt) (s.files t)).2)
    | _ => none
  | .importFiles p fault now timeout =>
    match s.phase p with
    | .importing t =>
      let done := importUnderLock loads fault (s.files t)
      let next := match done.1 with
        | .ok _ => Phase.openRoot t true (now + max 0 timeout)
        | .error e => .over (.importFailed e)
      some ((s.setFiles t done.2).drop p next)
    | _ => none
  | .recheck p =>
    match s.phase p with
    | .opening t true =>
      if (s.files t).pending then some (s.drop p (.over .leftoverAppeared))
      else some (s.setPhase p (.building t true))
    | .opening t false =>
      if (s.files t).usesRuntime then some (s.drop p (.over .importedMeanwhile))
      else some (s.setPhase p (.building t false))
    | _ => none
  | .build p =>
    match s.phase p with
    | .building t r => some ((s.setFiles t ((s.files t).built r)).setPhase p (.live t r))
    | _ => none
  | .buildFails p written =>
    match s.phase p with
    | .building t r =>
      let files := if written then (s.files t).built r else s.files t
      some ((s.setFiles t files).drop p (.over .openFailed))
    | _ => none
  | .save p key row =>
    match s.phase p with
    | .live t r => some (s.setFiles t ((s.files t).saved r key row))
    | _ => none
  | .operate p operations =>
    match s.phase p with
    | .live t r => some (s.setFiles t ((s.files t).operated r operations))
    | _ => none
  | .close p =>
    match s.phase p with
    | .live _ _ | .serving | .archiving => some (s.drop p (.over .closed))
    | _ => none
  | .startApi p => if s.phase p = .idle then some (s.setPhase p .starting) else none
  | .archive p => if s.phase p = .idle then some (s.tryLock p .api .archiveRoot) else none
  | .archiveLock p => if s.phase p = .archiveRoot then some (s.tryLock p .root .archiving) else none
  | .extract p t files => if s.phase p = .archiving then some (s.setFiles t files) else none
  | .crash p =>
    match s.phase p with
    | .idle | .over _ => none
    | _ => some (s.drop p (.over .crashed))

def rootSystem : System Root RootLabel := ⟨rootStep loads⟩

variable {loads}

/-! ### The files of a tenant -/

namespace RunsRoot

/-- A checkpoint in `runtime.db` or in `checkpoints.db`. -/
def checkpoint? (root : RunsRoot) (runtime : Bool) (key : CheckpointKey) : Option CheckpointRow :=
  if runtime then root.runtimeDb.bind fun db => db.checkpoints.get? key
  else root.checkpointsDb.bind fun db => db.get? key

theorem checkpoint?_runtime (root : RunsRoot) (key : CheckpointKey) :
    root.checkpoint? true key = root.rows.checkpoints.get? key := by
  unfold checkpoint? rows Runtime.rows
  cases root.runtimeDb <;> rfl

theorem mem_legacyCheckpoints {root : RunsRoot} {key : CheckpointKey} {row : CheckpointRow}
    (h : root.checkpoint? false key = some row) : (key, row) ∈ root.legacyCheckpoints := by
  unfold checkpoint? at h
  obtain ⟨db, hdb, hrow⟩ := Option.bind_eq_some_iff.mp h
  unfold legacyCheckpoints
  rw [hdb]
  exact Table.get?_eq_some.mp hrow

/-- What the writes of a handle keep. -/
structure Grows (root root' : RunsRoot) : Prop where
  checkpoints : ∀ runtime key row, root.checkpoint? runtime key = some row →
    root'.checkpoint? runtime key = some row
  complete : root'.importComplete = root.importComplete
  runtimeDb : root.runtimeDb.isSome = true → root'.runtimeDb.isSome = true
  checkpointsDb : root.checkpointsDb.isSome = true → root'.checkpointsDb.isSome = true

theorem grows_built (root : RunsRoot) (runtime : Bool) : root.Grows (root.built runtime) := by
  cases runtime with
  | true =>
    refine ⟨fun runtime key row hrow => ?_, ?_, fun _ => rfl, fun h => h⟩
    · cases runtime with
      | true =>
        obtain ⟨db, hdb, hget⟩ := Option.bind_eq_some_iff.mp hrow
        simp only [checkpoint?, built, if_pos, hdb, Option.getD_some, Option.bind_some, hget]
      | false => exact hrow
    · unfold importComplete built
      cases root.runtimeDb <;> rfl
  | false =>
    refine ⟨fun runtime key row hrow => ?_, rfl, fun h => h, fun _ => rfl⟩
    cases runtime with
    | true => exact hrow
    | false =>
      obtain ⟨db, hdb, hget⟩ := Option.bind_eq_some_iff.mp hrow
      simp only [checkpoint?, built, Bool.false_eq_true, if_false, hdb, Option.getD_some,
        Option.bind_some, hget]

theorem get?_insertOrIgnore_old {K V : Type*} [DecidableEq K] {db : Table K V} {key key' : K}
    {row row' : V} (h : db.get? key' = some row') :
    (db.insertOrIgnore key row).get? key' = some row' := by
  rw [Table.get?_insertOrIgnore]
  split
  · rename_i heq
    rw [← heq, h]
    rfl
  · exact h

theorem grows_saved (root : RunsRoot) (runtime : Bool) (key : CheckpointKey) (row : CheckpointRow) :
    root.Grows (root.saved runtime key row) := by
  cases runtime with
  | true =>
    refine ⟨fun runtime key' row' hrow => ?_, ?_, fun h => ?_, fun h => h⟩
    · cases runtime with
      | true =>
        obtain ⟨db, hdb, hget⟩ := Option.bind_eq_some_iff.mp hrow
        simp only [checkpoint?, saved, if_pos, hdb, Option.map_some, Option.bind_some,
          get?_insertOrIgnore_old hget]
      | false => exact hrow
    · unfold importComplete saved
      cases root.runtimeDb <;> rfl
    · simpa only [saved, if_pos, Option.isSome_map] using h
  | false =>
    refine ⟨fun runtime key' row' hrow => ?_, rfl, fun h => h, fun h => ?_⟩
    · cases runtime with
      | true => exact hrow
      | false =>
        obtain ⟨db, hdb, hget⟩ := Option.bind_eq_some_iff.mp hrow
        simp only [checkpoint?, saved, Bool.false_eq_true, if_false, hdb, Option.map_some,
          Option.bind_some, get?_insertOrIgnore_old hget]
    · simpa only [saved, Bool.false_eq_true, if_false, Option.isSome_map] using h

theorem grows_operated (root : RunsRoot) (runtime : Bool)
    (operations : Table OperationKey OperationRow) :
    root.Grows (root.operated runtime operations) := by
  cases runtime with
  | true =>
    refine ⟨fun runtime key' row' hrow => ?_, ?_, fun h => ?_, fun h => h⟩
    · cases runtime with
      | true =>
        obtain ⟨db, hdb, hget⟩ := Option.bind_eq_some_iff.mp hrow
        simp only [checkpoint?, operated, if_pos, hdb, Option.map_some, Option.bind_some, hget]
      | false => exact hrow
    · unfold importComplete operated
      cases root.runtimeDb <;> rfl
    · simpa only [operated, if_pos, Option.isSome_map] using h
  | false =>
    refine ⟨fun runtime key' row' hrow => ?_, rfl, fun h => h, fun h => h⟩
    cases runtime <;> exact hrow

/-- The row of a save is in the file that the handle has open. -/
theorem checkpoint?_saved {root : RunsRoot} {runtime : Bool} {key : CheckpointKey}
    (row : CheckpointRow) (hnew : root.checkpoint? runtime key = none)
    (hopen : if runtime then root.runtimeDb.isSome = true else root.checkpointsDb.isSome = true) :
    (root.saved runtime key row).checkpoint? runtime key = some row := by
  cases runtime with
  | true =>
    obtain ⟨db, hdb⟩ := Option.isSome_iff_exists.mp hopen
    simp only [checkpoint?, if_pos, hdb, Option.bind_some] at hnew
    simp only [checkpoint?, saved, if_pos, hdb, Option.map_some, Option.bind_some,
      Table.get?_insertOrIgnore_new hnew]
  | false =>
    obtain ⟨db, hdb⟩ := Option.isSome_iff_exists.mp hopen
    simp only [checkpoint?, Bool.false_eq_true, if_false, hdb, Option.bind_some] at hnew
    simp only [checkpoint?, saved, Bool.false_eq_true, if_false, hdb, Option.map_some,
      Option.bind_some, Table.get?_insertOrIgnore_new hnew, if_pos]

/-- Whatever an import does and wherever it fails, `checkpoints.db` stays, no row of `runtime.db`
changes, and the import is recorded with all legacy checkpoints in it. -/
theorem importUnderLock_keeps (loads : String → Except LoadError PyValue)
    (fault : Option FaultPoint) (root : RunsRoot) :
    (importUnderLock loads fault root).2.checkpointsDb = root.checkpointsDb ∧
    Extends root.rows (importUnderLock loads fault root).2.rows ∧
    ((importUnderLock loads fault root).2.importComplete = true → root.importComplete = true ∨
      Merged loads root root.rows (importUnderLock loads fault root).2.rows) := by
  have hcomplete : root.importComplete = (root.runtimeDb.getD {}).imported := by
    unfold importComplete
    cases root.runtimeDb <;> rfl
  unfold importUnderLock
  dsimp only
  split
  · exact ⟨rfl, .refl _, fun h => .inl (hcomplete.trans h)⟩
  · split
    · exact ⟨rfl, .refl _, fun h => .inl (hcomplete.trans h)⟩
    · split
      · rename_i himported
        unfold retire
        split
        · exact ⟨rfl, .refl _, fun _ => .inl (hcomplete.trans himported)⟩
        · exact ⟨rfl, .refl _, fun _ => .inl (hcomplete.trans himported)⟩
      · split
        · exact ⟨rfl, .refl _, fun h => .inl (hcomplete.trans h)⟩
        · rename_i rows hrows
          have hmerged : Merged loads root root.rows rows := merged_of_runSteps hrows
          unfold retire
          split
          · exact ⟨rfl, hmerged.kept, fun _ => .inr hmerged⟩
          · exact ⟨rfl, hmerged.kept, fun _ => .inr hmerged⟩

end RunsRoot

/-- What a handle knows of the files of its tenant. -/
def Phase.Sees (files : String → RunsRoot) : Phase → Prop
  | .building t false => (files t).importComplete = false
  | .live t true => (files t).runtimeDb.isSome = true
  | .live t false => (files t).importComplete = false ∧ (files t).checkpointsDb.isSome = true
  | _ => True

/-- It goes on to know it while others write beside it. -/
theorem Phase.Sees.grows {phase : Phase} {files files' : String → RunsRoot} (h : phase.Sees files)
    (hfiles : ∀ t, phase.worksOn = some t → files' t = files t ∨ (files t).Grows (files' t)) :
    phase.Sees files' := by
  cases phase with
  | building t runtime =>
    cases runtime with
    | true => trivial
    | false =>
      rcases hfiles t rfl with hsame | hgrows
      · show (files' t).importComplete = false
        rw [hsame]
        exact h
      · exact hgrows.complete.trans h
  | live t runtime =>
    cases runtime with
    | true =>
      rcases hfiles t rfl with hsame | hgrows
      · show (files' t).runtimeDb.isSome = true
        rw [hsame]
        exact h
      · exact hgrows.runtimeDb h
    | false =>
      rcases hfiles t rfl with hsame | hgrows
      · show (files' t).importComplete = false ∧ (files' t).checkpointsDb.isSome = true
        rw [hsame]
        exact h
      · exact ⟨hgrows.complete.trans h.1, hgrows.checkpointsDb h.2⟩
  | _ => trivial

/-! ### One step -/

/-- What a step of `p` does to the locks, and to the others' place in the code. -/
inductive LockChange (s s' : Root) (p : ℕ) : Prop
  | kept (locks : s'.locks = s.locks) (holds : (s'.phase p).holds = (s.phase p).holds)
  | took (lock : LockFile) (mode : LockMode) (granted : grants s.locks lock mode = true)
    (locks : s'.locks = acquire s.locks p lock mode)
    (holds : (s'.phase p).holds = (lock, mode) :: (s.phase p).holds)
  | dropped (locks : s'.locks = releaseAll s.locks p) (holds : (s'.phase p).holds = [])

namespace Root

@[simp] theorem setPhase_self (s : Root) (p : ℕ) (phase : Phase) :
    (s.setPhase p phase).phase p = phase := Function.update_self ..

theorem setPhase_other (s : Root) {p q : ℕ} (phase : Phase) (hq : q ≠ p) :
    (s.setPhase p phase).phase q = s.phase q := Function.update_of_ne hq ..

@[simp] theorem setFiles_phase (s : Root) (t : String) (files : RunsRoot) :
    (s.setFiles t files).phase = s.phase := rfl

theorem setFiles_files (s : Root) (t u : String) (files : RunsRoot) :
    (s.setFiles t files).files u = if u = t then files else s.files u :=
  Function.update_apply ..

@[simp] theorem drop_phase (s : Root) (p : ℕ) (next : Phase) :
    (s.drop p next).phase = (s.setPhase p next).phase := rfl

@[simp] theorem take_phase (s : Root) (p : ℕ) (lock : LockFile) (mode : LockMode) (next : Phase) :
    (s.take p lock mode next).phase = (s.setPhase p next).phase := rfl

/-- Where a poll leads: on with the lock, out without any, or nowhere. -/
theorem pollLock_cases (s : Root) (p : ℕ) (lock : LockFile) (mode : LockMode) (deadline now : ℚ)
    (next : Phase) :
    grants s.locks lock mode = true ∧
      s.pollLock p lock mode deadline now next = s.take p lock mode next ∨
    deadline ≤ now ∧ s.pollLock p lock mode deadline now next = s.drop p (.over (.busy lock)) ∨
    now < deadline ∧ s.pollLock p lock mode deadline now next = s := by
  unfold pollLock
  split
  · rename_i hgranted
    exact .inl ⟨hgranted, rfl⟩
  · split
    · rename_i hlate
      exact .inr (.inl ⟨hlate, rfl⟩)
    · rename_i hearly
      exact .inr (.inr ⟨not_le.mp hearly, rfl⟩)

theorem tryLock_cases (s : Root) (p : ℕ) (lock : LockFile) (next : Phase) :
    grants s.locks lock .exclusive = true ∧ s.tryLock p lock next = s.take p lock .exclusive next ∨
    s.tryLock p lock next = s.drop p (.over (.refused lock)) := by
  unfold tryLock
  split
  · rename_i hgranted
    exact .inl ⟨hgranted, rfl⟩
  · exact .inr rfl

end Root

/-- What a step of `p` makes of a tenant's files: a write of its own phase. -/
inductive FileWrite (loads : String → Except LoadError PyValue) (phase phase' : Phase)
    (t : String) (files : RunsRoot) : RunsRoot → Prop
  | imported (fault : Option FaultPoint) (importing : phase = .importing t)
    (after : phase'.worksOn = none ∨ phase' = .importing t) :
    FileWrite loads phase phase' t files (importUnderLock loads fault files).2
  | built (runtime : Bool) (building : phase = .building t runtime)
    (after : phase' = .live t runtime ∨ phase'.worksOn = none) :
    FileWrite loads phase phase' t files (files.built runtime)
  | saved (runtime : Bool) (key : CheckpointKey) (row : CheckpointRow)
    (live : phase = .live t runtime) (after : phase' = phase) :
    FileWrite loads phase phase' t files (files.saved runtime key row)
  | operated (runtime : Bool) (operations : Table OperationKey OperationRow)
    (live : phase = .live t runtime) (after : phase' = phase) :
    FileWrite loads phase phase' t files (files.operated runtime operations)
  | extracted (archived : RunsRoot) (archiving : phase = .archiving) (after : phase' = phase) :
    FileWrite loads phase phase' t files archived

/-- A write of a handle. -/
theorem FileWrite.grows {phase phase' : Phase} {t : String} {files files' : RunsRoot}
    (h : FileWrite loads phase phase' t files files') (himport : phase ≠ .importing t)
    (harchive : phase ≠ .archiving) : files.Grows files' := by
  cases h with
  | imported fault importing => exact absurd importing himport
  | built runtime => exact files.grows_built runtime
  | saved runtime key row => exact files.grows_saved runtime key row
  | operated runtime operations => exact files.grows_operated runtime operations
  | extracted archived archiving => exact absurd archiving harchive

/-- A step of `p`: the others stay where they are, and the files of a tenant are written by `p`. -/
structure Turn (loads : String → Except LoadError PyValue) (s s' : Root) (p : ℕ) : Prop where
  others : ∀ q, q ≠ p → s'.phase q = s.phase q
  locks : LockChange s s' p
  files : ∀ t, s'.files t = s.files t ∨
    FileWrite loads (s.phase p) (s'.phase p) t (s.files t) (s'.files t)
  sees : (s.phase p).Sees s.files → (s'.phase p).Sees s'.files

namespace Turn

variable {s : Root} {p : ℕ} {lock : LockFile} {mode : LockMode} {next : Phase}

theorem refl (s : Root) (p : ℕ) : Turn loads s s p :=
  ⟨fun _ _ => rfl, .kept rfl rfl, fun _ => .inl rfl, fun h => h⟩

theorem setPhase (hholds : next.holds = (s.phase p).holds)
    (hsees : (s.phase p).Sees s.files → next.Sees s.files) : Turn loads s (s.setPhase p next) p :=
  ⟨fun _ hq => s.setPhase_other next hq, .kept rfl (by rw [Root.setPhase_self, hholds]),
    fun _ => .inl rfl, fun h => by rw [Root.setPhase_self]; exact hsees h⟩

theorem take (hgranted : grants s.locks lock mode = true)
    (hholds : next.holds = (lock, mode) :: (s.phase p).holds) (hsees : next.Sees s.files) :
    Turn loads s (s.take p lock mode next) p :=
  ⟨fun _ hq => s.setPhase_other next hq,
    .took lock mode hgranted rfl (by rw [Root.take_phase, Root.setPhase_self, hholds]),
    fun _ => .inl rfl, fun _ => by rw [Root.take_phase, Root.setPhase_self]; exact hsees⟩

theorem sees_of_holds_nil {files : String → RunsRoot} (hholds : next.holds = []) :
    next.Sees files := by
  cases next with
  | building t runtime => cases hholds
  | live t runtime => cases hholds
  | _ => trivial

theorem drop (hholds : next.holds = []) : Turn loads s (s.drop p next) p :=
  ⟨fun _ hq => s.setPhase_other next hq,
    .dropped rfl (by rw [Root.drop_phase, Root.setPhase_self, hholds]),
    fun _ => .inl rfl, fun _ => by
      rw [Root.drop_phase, Root.setPhase_self]
      exact sees_of_holds_nil hholds⟩

theorem pollLock {deadline now : ℚ} (hholds : next.holds = (lock, mode) :: (s.phase p).holds)
    (hsees : next.Sees s.files) :
    Turn loads s (s.pollLock p lock mode deadline now next) p := by
  rcases s.pollLock_cases p lock mode deadline now next with ⟨hgranted, h⟩ | ⟨-, h⟩ | ⟨-, h⟩
  · rw [h]
    exact take hgranted hholds hsees
  · rw [h]
    exact drop rfl
  · rw [h]
    exact refl s p

theorem tryLock (hholds : next.holds = (lock, .exclusive) :: (s.phase p).holds)
    (hsees : next.Sees s.files) :
    Turn loads s (s.tryLock p lock next) p := by
  rcases s.tryLock_cases p lock next with ⟨hgranted, h⟩ | h
  · rw [h]
    exact take hgranted hholds hsees
  · rw [h]
    exact drop rfl

theorem sees_setFiles {phase : Phase} {t : String} {files : RunsRoot}
    (hgrows : (s.files t).Grows files) (h : phase.Sees s.files) :
    phase.Sees (s.setFiles t files).files := by
  apply h.grows
  intro u _
  rw [Root.setFiles_files]
  by_cases hu : u = t
  · subst hu
    rw [if_pos rfl]
    exact .inr hgrows
  · rw [if_neg hu]
    exact .inl rfl

/-- The stores that a handle has opened are there. -/
theorem live_sees {t : String} {runtime : Bool}
    (h : (Phase.building t runtime).Sees (s.setFiles t ((s.files t).built runtime)).files) :
    (Phase.live t runtime).Sees (s.setFiles t ((s.files t).built runtime)).files := by
  have hfiles : (s.setFiles t ((s.files t).built runtime)).files t = (s.files t).built runtime := by
    rw [Root.setFiles_files, if_pos rfl]
  cases runtime with
  | true =>
    show ((s.setFiles t ((s.files t).built true)).files t).runtimeDb.isSome = true
    rw [hfiles]
    rfl
  | false =>
    refine ⟨h, ?_⟩
    rw [hfiles]
    rfl

/-- A write to one tenant's files, ahead of what the step does to the locks. -/
theorem setFiles {s' : Root} {t : String} {files : RunsRoot}
    (h : Turn loads (s.setFiles t files) s' p) (hfiles : s'.files = (s.setFiles t files).files)
    (hwrite : FileWrite loads (s.phase p) (s'.phase p) t (s.files t) files)
    (hsees : (s.phase p).Sees s.files → (s.phase p).Sees (s.setFiles t files).files) :
    Turn loads s s' p := by
  refine ⟨h.others, ?_, fun u => ?_, fun hbefore => h.sees (hsees hbefore)⟩
  · cases h.locks with
    | kept locks holds => exact .kept locks holds
    | took lock mode granted locks holds => exact .took lock mode granted locks holds
    | dropped locks holds => exact .dropped locks holds
  · rw [hfiles, Root.setFiles_files]
    by_cases hu : u = t
    · subst hu
      rw [if_pos rfl]
      exact .inr hwrite
    · rw [if_neg hu]
      exact .inl rfl

end Turn

theorem rootStep_turn {s s' : Root} {l : RootLabel} (h : rootStep loads s l = some s') :
    Turn loads s s' l.actor := by
  cases l with
  | look p t mode now timeout =>
    show Turn loads s s' p
    simp only [rootStep] at h
    split at h
    · rename_i hphase
      have hidle : (s.phase p).holds = [] := by rw [hphase]; rfl
      -- Whatever the first look finds, it takes nothing.
      split at h
      · cases h
        exact .setPhase hidle.symm fun _ => trivial
      · split at h <;> cases h <;> exact .setPhase hidle.symm fun _ => trivial
      · split at h <;> cases h <;> exact .setPhase hidle.symm fun _ => trivial
    · cases h
  | poll p now =>
    show Turn loads s s' p
    simp only [rootStep] at h
    split at h
    · rename_i hphase
      cases h
      exact .pollLock (by rw [hphase]; rfl) trivial
    · rename_i hphase
      cases h
      exact .pollLock (by rw [hphase]; rfl) trivial
    · rename_i hphase
      cases h
      exact .pollLock (by rw [hphase]; rfl) trivial
    · rename_i hphase
      cases h
      exact .pollLock (by rw [hphase]; rfl) trivial
    · rename_i hphase
      split at h
      · rename_i hgranted
        cases h
        exact .take hgranted (by rw [hphase]; rfl) trivial
      · cases h
        exact .refl s p
    · cases h
  | prepare p =>
    show Turn loads s s' p
    simp only [rootStep] at h
    split at h
    · rename_i t hphase
      cases h
      exact .setFiles (.refl _ p) rfl (.imported (some .rebuilt) hphase (.inr hphase))
        fun _ => by rw [hphase]; trivial
    · cases h
  | importFiles p fault now timeout =>
    show Turn loads s s' p
    simp only [rootStep] at h
    split at h
    · rename_i t hphase
      cases h
      have hnext : ∀ next : Phase, next.holds = [] → next.worksOn = none →
          Turn loads s
            ((s.setFiles t (importUnderLock loads fault (s.files t)).2).drop p next) p := by
        intro next hholds hworks
        refine .setFiles (.drop hholds) rfl (.imported fault hphase (.inl ?_)) fun _ => by
          rw [hphase]; trivial
        rw [Root.drop_phase, Root.setPhase_self, hworks]
      split
      · exact hnext _ rfl rfl
      · exact hnext _ rfl rfl
    · cases h
  | recheck p =>
    show Turn loads s s' p
    simp only [rootStep] at h
    split at h
    · rename_i t hphase
      split at h <;> cases h
      · exact .drop rfl
      · exact .setPhase (by rw [hphase]; rfl) fun _ => trivial
    · rename_i t hphase
      split at h
      · cases h
        exact .drop rfl
      · rename_i hleftover
        cases h
        refine .setPhase (by rw [hphase]; rfl) fun _ => ?_
        -- A recorded import makes every open use `runtime.db`.
        show (s.files t).importComplete = false
        rw [Bool.not_eq_true, RunsRoot.usesRuntime, Bool.or_eq_false_iff] at hleftover
        exact hleftover.1
    · cases h
  | build p =>
    show Turn loads s s' p
    simp only [rootStep] at h
    split at h
    · rename_i t runtime hphase
      cases h
      refine .setFiles (.setPhase ?_ fun hbefore => ?_) rfl
        (.built runtime hphase (.inl (Root.setPhase_self ..)))
        (Turn.sees_setFiles ((s.files t).grows_built runtime))
      · rw [Root.setFiles_phase, hphase]
        rfl
      · rw [Root.setFiles_phase, hphase] at hbefore
        exact Turn.live_sees hbefore
    · cases h
  | buildFails p written =>
    show Turn loads s s' p
    simp only [rootStep] at h
    split at h
    · rename_i t runtime hphase
      cases h
      cases written with
      | true =>
        refine .setFiles (.drop rfl) rfl (.built runtime hphase (.inr ?_))
          (Turn.sees_setFiles ((s.files t).grows_built runtime))
        rw [Root.drop_phase, Root.setPhase_self]
        rfl
      | false =>
        have hsame : s.setFiles t (s.files t) = s := by
          unfold Root.setFiles
          rw [Function.update_eq_self]
        simp only [Bool.false_eq_true, if_false, hsame]
        exact .drop rfl
    · cases h
  | save p key row =>
    show Turn loads s s' p
    simp only [rootStep] at h
    split at h
    · rename_i t runtime hphase
      cases h
      exact .setFiles (.refl _ p) rfl (.saved runtime key row hphase rfl)
        (Turn.sees_setFiles ((s.files t).grows_saved runtime key row))
    · cases h
  | operate p operations =>
    show Turn loads s s' p
    simp only [rootStep] at h
    split at h
    · rename_i t runtime hphase
      cases h
      exact .setFiles (.refl _ p) rfl (.operated runtime operations hphase rfl)
        (Turn.sees_setFiles ((s.files t).grows_operated runtime operations))
    · cases h
  | close p =>
    show Turn loads s s' p
    simp only [rootStep] at h
    split at h
    · cases h
      exact .drop rfl
    · cases h
      exact .drop rfl
    · cases h
      exact .drop rfl
    · cases h
  | startApi p =>
    show Turn loads s s' p
    simp only [rootStep] at h
    split at h
    · rename_i hphase
      cases h
      exact .setPhase (by rw [hphase]; rfl) fun _ => trivial
    · cases h
  | archive p =>
    show Turn loads s s' p
    simp only [rootStep] at h
    split at h
    · rename_i hphase
      cases h
      exact .tryLock (by rw [hphase]; rfl) trivial
    · cases h
  | archiveLock p =>
    show Turn loads s s' p
    simp only [rootStep] at h
    split at h
    · rename_i hphase
      cases h
      exact .tryLock (by rw [hphase]; rfl) trivial
    · cases h
  | extract p t files =>
    show Turn loads s s' p
    simp only [rootStep] at h
    split at h
    · rename_i hphase
      cases h
      exact .setFiles (.refl _ p) rfl (.extracted files hphase rfl) fun _ => by rw [hphase]; trivial
    · cases h
  | crash p =>
    show Turn loads s s' p
    simp only [rootStep] at h
    split at h
    · cases h
    · cases h
    · cases h
      exact .drop rfl

/-! ### Exclusion -/

/-- The locks that are held are those of the phases. -/
structure Root.Inv (s : Root) : Prop where
  sound : Sound s.locks
  holds : ∀ h, h ∈ s.locks ↔ (h.lock, h.mode) ∈ (s.phase h.owner).holds

/-- Nobody is at work, over files of any kind. -/
structure Root.Initial (s : Root) : Prop where
  locks : s.locks = []
  phase : ∀ p, s.phase p = .idle

theorem Root.Initial.inv {s : Root} (h : s.Initial) : s.Inv := by
  refine ⟨?_, fun hold => ?_⟩
  · rw [h.locks]
    exact sound_nil
  · rw [h.locks, h.phase]
    exact iff_of_false List.not_mem_nil List.not_mem_nil

theorem Root.Inv.step {s s' : Root} {p : ℕ} (hinv : s.Inv) (h : Turn loads s s' p) : s'.Inv := by
  cases h.locks with
  | kept locks holds =>
    refine ⟨locks ▸ hinv.sound, fun hold => ?_⟩
    rw [locks, hinv.holds]
    by_cases howner : hold.owner = p
    · rw [howner, holds]
    · rw [h.others _ howner]
  | took lock mode granted locks holds =>
    refine ⟨locks ▸ hinv.sound.acquire granted, fun hold => ?_⟩
    rw [locks, mem_acquire, hinv.holds]
    by_cases howner : hold.owner = p
    · rw [howner, holds, List.mem_cons]
      have hnew : hold = ⟨lock, p, mode⟩ ↔ (hold.lock, hold.mode) = (lock, mode) := by
        rw [← howner]
        cases hold
        simp only [Hold.mk.injEq, true_and, Prod.mk.injEq]
      rw [hnew]
    · rw [h.others _ howner, or_iff_right]
      intro heq
      exact howner (congrArg Hold.owner heq)
  | dropped locks holds =>
    refine ⟨locks ▸ hinv.sound.releaseAll p, fun hold => ?_⟩
    rw [locks, mem_releaseAll, hinv.holds]
    by_cases howner : hold.owner = p
    · rw [howner, holds]
      simp only [ne_eq, not_true_eq_false, and_false, List.not_mem_nil]
    · rw [h.others _ howner, and_iff_left howner]

theorem Root.Inv.run {s s' : Root} {ls : List RootLabel} (hinit : s.Initial)
    (hrun : (rootSystem loads).run s ls = some s') : s'.Inv :=
  System.run_invariant (fun _ _ _ hinv hstep => hinv.step (rootStep_turn hstep)) hinit.inv hrun

theorem Root.Inv.mem {s : Root} (hinv : s.Inv) {p : ℕ} {lock : LockFile} {mode : LockMode}
    (h : (lock, mode) ∈ (s.phase p).holds) : ⟨lock, p, mode⟩ ∈ s.locks :=
  (hinv.holds ⟨lock, p, mode⟩).mpr h

/-- An exclusive hold keeps the lock from everybody else. -/
theorem Root.Inv.excludes {s : Root} (hinv : s.Inv) {p q : ℕ} {lock : LockFile} {mode : LockMode}
    (hp : (lock, .exclusive) ∈ (s.phase p).holds) (hq : (lock, mode) ∈ (s.phase q).holds) : q = p :=
  (congrArg Hold.owner (hinv.sound.unique (hinv.mem hp) (hinv.mem hq) rfl rfl)).symm

/-- Whoever holds anything holds `api.lock` or the root lock. -/
theorem Phase.holds_cases (phase : Phase) :
    phase.holds = [] ∨ (∃ mode, (.api, mode) ∈ phase.holds) ∨ (.root, .shared) ∈ phase.holds := by
  cases phase <;> simp [Phase.holds]

theorem Phase.holds_of_worksOn {phase : Phase} {t : String} (h : phase.worksOn = some t) :
    (∃ mode, (.tenant t, mode) ∈ phase.holds) ∧ (.root, .shared) ∈ phase.holds := by
  cases phase <;> simp only [Phase.worksOn, reduceCtorEq, Option.some.injEq] at h <;>
    simp [Phase.holds, h]

/-- A backup or a restore is alone. -/
theorem Root.Inv.archiving_alone {s : Root} (hinv : s.Inv) {p q : ℕ} (hp : s.phase p = .archiving)
    (hq : q ≠ p) : (s.phase q).holds = [] := by
  have hroot : (.root, .exclusive) ∈ (s.phase p).holds := by rw [hp]; exact List.mem_cons_self
  have hapi : (.api, .exclusive) ∈ (s.phase p).holds := by
    rw [hp]
    exact List.mem_cons_of_mem _ List.mem_cons_self
  rcases (s.phase q).holds_cases with hnone | ⟨mode, hmode⟩ | hshared
  · exact hnone
  · exact absurd (hinv.excludes hapi hmode) hq
  · exact absurd (hinv.excludes hroot hshared) hq

/-- An import is alone on its tenant. -/
theorem Root.Inv.importing_alone {s : Root} (hinv : s.Inv) {p q : ℕ} {t : String}
    (hp : s.phase p = .importing t) (hq : q ≠ p) : (s.phase q).worksOn ≠ some t := by
  intro hworks
  obtain ⟨⟨mode, hmode⟩, -⟩ := Phase.holds_of_worksOn hworks
  have htenant : (.tenant t, .exclusive) ∈ (s.phase p).holds := by
    rw [hp]
    exact List.mem_cons_self
  exact hq (hinv.excludes htenant hmode)

/-- Tenants with the files of an older release. -/
def leftoverRoot : Root where
  files _ := demoRoot planCheckpoint none false

theorem leftoverRoot_initial : leftoverRoot.Initial := ⟨rfl, fun _ => rfl⟩

/-- A handle that is `off` writes a checkpoint and closes; an import follows, then a backup that
finds the import's handle. -/
def rollForward : List RootLabel :=
  [.look 0 "acme" .off 0 5, .poll 0 0, .poll 0 0, .recheck 0, .build 0,
    .save 0 ⟨"run-a", 2⟩ planCheckpoint, .close 0,
    .look 1 "acme" .auto 1 5, .poll 1 1, .poll 1 1, .importFiles 1 none 1 5,
    .poll 1 1, .poll 1 1, .recheck 1, .build 1, .save 1 ⟨"run-a", 3⟩ intakeCheckpoint,
    .archive 2, .archiveLock 2]

/-- Every change of a tenant's files is one of a restore, which is alone, of an import, which is
alone on its tenant, or of a handle beside other handles. -/
def WriterExcludes (s : Root) (l : RootLabel) (s' : Root) : Prop :=
  ∀ t, s'.files t ≠ s.files t →
    s.phase l.actor = .archiving ∧ (∀ q, q ≠ l.actor → (s.phase q).holds = []) ∨
    s.phase l.actor = .importing t ∧
      (∀ q, q ≠ l.actor → s.phase q ≠ .archiving ∧ (s.phase q).worksOn ≠ some t) ∨
    ∃ runtime, (s.phase l.actor = .building t runtime ∨ s.phase l.actor = .live t runtime) ∧
      ∀ q, s.phase q ≠ .archiving ∧ s.phase q ≠ .importing t

theorem writers_exclude (loads : String → Except LoadError PyValue) {s : Root} (hinit : s.Initial)
    (ls : List RootLabel) : (rootSystem loads).Along WriterExcludes s ls := by
  apply System.along_of_inductive (I := Root.Inv) _ _ hinit.inv
  · exact fun s l s' hinv hstep => hinv.step (rootStep_turn hstep)
  · intro s l s' hinv hstep t hchange
    have hworks : (s.phase l.actor).worksOn = some t → ∀ q, s.phase q ≠ .archiving := by
      intro hworks q hq
      have hroot := (Phase.holds_of_worksOn hworks).2
      by_cases hne : l.actor = q
      · rw [hne, hq] at hworks
        cases hworks
      · rw [hinv.archiving_alone hq hne] at hroot
        cases hroot
    rcases (rootStep_turn hstep).files t with hsame | hwrite
    · exact absurd hsame hchange
    · have hhandle : (∃ runtime, s.phase l.actor = .building t runtime ∨
          s.phase l.actor = .live t runtime) → ∃ runtime, (s.phase l.actor = .building t runtime ∨
          s.phase l.actor = .live t runtime) ∧
            ∀ q, s.phase q ≠ .archiving ∧ s.phase q ≠ .importing t := by
        intro ⟨runtime, hphase⟩
        have hon : (s.phase l.actor).worksOn = some t := by
          rcases hphase with hphase | hphase <;> rw [hphase] <;> rfl
        refine ⟨runtime, hphase, fun q => ⟨hworks hon q, fun hq => ?_⟩⟩
        by_cases hne : l.actor = q
        · rw [hne, hq] at hphase
          rcases hphase with hphase | hphase <;> cases hphase
        · exact hinv.importing_alone hq hne hon
      generalize hfiles : s'.files t = written at hwrite
      cases hwrite with
      | imported fault importing =>
        have hon : (s.phase l.actor).worksOn = some t := by rw [importing]; rfl
        exact .inr (.inl ⟨importing, fun q hq => ⟨hworks hon q, hinv.importing_alone importing hq⟩⟩)
      | built runtime building => exact .inr (.inr (hhandle ⟨runtime, .inl building⟩))
      | saved runtime key row live => exact .inr (.inr (hhandle ⟨runtime, .inr live⟩))
      | operated runtime operations live => exact .inr (.inr (hhandle ⟨runtime, .inr live⟩))
      | extracted archived archiving =>
        exact .inl ⟨archiving, fun q hq => hinv.archiving_alone archiving hq⟩

theorem writers_exclude_rollForward :
    ((rootSystem loadsDemo).run leftoverRoot rollForward).isSome = true ∧
      (rootSystem loadsDemo).Along WriterExcludes leftoverRoot rollForward :=
  ⟨by decide +kernel, writers_exclude loadsDemo leftoverRoot_initial rollForward⟩

/-! ### Waiting -/

def Root.waits (s : Root) (p : ℕ) : Option (LockFile × LockMode) := (s.phase p).awaits

theorem LockFile.rank_le (lock : LockFile) : lock.rank ≤ 2 := by
  cases lock <;> simp [LockFile.rank]

/-- What a phase holds comes before what it waits for. -/
theorem Phase.rank_lt {phase : Phase} {lock held : LockFile} {mode heldMode : LockMode}
    (hawaits : phase.awaits = some (lock, mode)) (hholds : (held, heldMode) ∈ phase.holds) :
    held.rank < lock.rank := by
  cases phase <;>
    simp only [Phase.awaits, reduceCtorEq, Option.some.injEq, Prod.mk.injEq] at hawaits <;>
    simp only [Phase.holds, List.not_mem_nil, List.mem_singleton, Prod.mk.injEq] at hholds
  all_goals
    rw [← hawaits.1, hholds.1]
    simp only [LockFile.rank, Nat.lt_add_one]

theorem Root.Inv.ordered {s : Root} (hinv : s.Inv) : Ordered s.locks s.waits LockFile.rank := by
  intro p lock mode hawaits hold hmem howner
  have hholds := (hinv.holds hold).mp hmem
  rw [howner] at hholds
  exact Phase.rank_lt hawaits hholds

/-- A poll behind the deadline either takes the lock or gives up, with nothing held. -/
theorem poll_late (loads : String → Except LoadError PyValue) {s : Root} {p : ℕ} {d now : ℚ}
    (hd : (s.phase p).deadline = some d) (hnow : d ≤ now) :
    ∃ s', rootStep loads s (.poll p now) = some s' ∧
      ((s'.phase p).awaits = none ∨
        (∃ t d', s'.phase p = .importTenant t d' ∧ d' ≤ now) ∨
        (∃ t r d', s'.phase p = .openTenant t r d' ∧ d' ≤ now)) ∧
      ((s.phase p).holds ≠ [] → (s'.phase p).awaits = none) := by
  have hpoll : ∀ (lock : LockFile) (mode : LockMode) (next : Phase),
      (s.pollLock p lock mode d now next).phase p = next ∨
      (s.pollLock p lock mode d now next).phase p = .over (.busy lock) := by
    intro lock mode next
    rcases s.pollLock_cases p lock mode d now next with ⟨-, h⟩ | ⟨-, h⟩ | ⟨hearly, -⟩
    · rw [h]
      exact .inl (Root.setPhase_self ..)
    · rw [h]
      exact .inr (Root.setPhase_self ..)
    · exact absurd hnow (not_le.mpr hearly)
  cases hphase : s.phase p <;> rw [hphase] at hd <;>
    simp only [Phase.deadline, reduceCtorEq, Option.some.injEq] at hd <;> subst hd
  case importRoot t d =>
    refine ⟨_, by simp only [rootStep, hphase]; rfl, ?_, fun h => absurd rfl h⟩
    rcases hpoll .root .shared (.importTenant t (max now d)) with h | h
    · exact .inr (.inl ⟨t, _, h, le_of_eq (max_eq_left hnow)⟩)
    · rw [h]
      exact .inl rfl
  case openRoot t r d =>
    refine ⟨_, by simp only [rootStep, hphase]; rfl, ?_, fun h => absurd rfl h⟩
    rcases hpoll .root .shared (.openTenant t r (max now d)) with h | h
    · exact .inr (.inr ⟨t, r, _, h, le_of_eq (max_eq_left hnow)⟩)
    · rw [h]
      exact .inl rfl
  case importTenant t d =>
    refine ⟨_, by simp only [rootStep, hphase]; rfl, ?_⟩
    rcases hpoll (.tenant t) .exclusive (.importing t) with h | h <;> rw [h] <;>
      exact ⟨.inl rfl, fun _ => rfl⟩
  case openTenant t r d =>
    refine ⟨_, by simp only [rootStep, hphase]; rfl, ?_⟩
    rcases hpoll (.tenant t) .shared (.opening t r) with h | h <;> rw [h] <;>
      exact ⟨.inl rfl, fun _ => rfl⟩

/-- Two polls behind the deadline end the wait of an import or of an open. -/
theorem wait_bounded {s : Root} {p : ℕ} {d now : ℚ} (hd : (s.phase p).deadline = some d)
    (hnow : d ≤ now) :
    ∃ n ≤ 2, ∃ s', (rootSystem loads).run s (List.replicate n (.poll p now)) = some s' ∧
      (s'.phase p).awaits = none := by
  obtain ⟨s₁, hs₁, hafter, -⟩ := poll_late loads hd hnow
  have hsecond : ∀ d', (s₁.phase p).deadline = some d' → d' ≤ now → (s₁.phase p).holds ≠ [] →
      ∃ n ≤ 2, ∃ s', (rootSystem loads).run s (List.replicate n (.poll p now)) = some s' ∧
        (s'.phase p).awaits = none := by
    intro d' hd' hnow' hholds
    obtain ⟨s₂, hs₂, -, hend⟩ := poll_late loads hd' hnow'
    exact ⟨2, le_refl 2, s₂, System.run_cons.mpr ⟨s₁, hs₁, System.run_cons.mpr ⟨s₂, hs₂, rfl⟩⟩,
      hend hholds⟩
  rcases hafter with hnone | ⟨t, d', h, hle⟩ | ⟨t, r, d', h, hle⟩
  · exact ⟨1, by decide, s₁, System.run_cons.mpr ⟨s₁, hs₁, rfl⟩, hnone⟩
  · exact hsecond d' (by rw [h]; rfl) hle (by rw [h]; exact List.cons_ne_nil _ _)
  · exact hsecond d' (by rw [h]; rfl) hle (by rw [h]; exact List.cons_ne_nil _ _)

/-- Whatever has happened, nobody waits for itself through others, behind every waiter is one that
can go on, the wait of an import or an open ends at its deadline, and only who is at work holds a
lock. -/
theorem root_locks_free {s₀ s : Root} {ls : List RootLabel} (hinit : s₀.Initial)
    (hrun : (rootSystem loads).run s₀ ls = some s) :
    (∀ p, ¬ Relation.TransGen (Blocks s.locks s.waits) p p) ∧
    (∀ p, ∃ q, Relation.ReflTransGen (Blocks s.locks s.waits) p q ∧
      ∀ lock mode, s.waits q = some (lock, mode) → grants s.locks lock mode = true) ∧
    (∀ p d now, (s.phase p).deadline = some d → d ≤ now →
      ∃ n ≤ 2, ∃ s', (rootSystem loads).run s (List.replicate n (.poll p now)) = some s' ∧
        (s'.phase p).awaits = none) ∧
    (∀ h ∈ s.locks, s.phase h.owner ≠ .idle ∧ ∀ outcome, s.phase h.owner ≠ .over outcome) := by
  have hinv : s.Inv := Root.Inv.run hinit hrun
  refine ⟨hinv.ordered.acyclic, hinv.ordered.exists_free LockFile.rank_le,
    fun p d now hd hnow => wait_bounded hd hnow, fun h hmem => ?_⟩
  have hholds := (hinv.holds h).mp hmem
  constructor
  · intro hphase
    rw [hphase] at hholds
    cases hholds
  · intro outcome hphase
    rw [hphase] at hholds
    cases hholds

theorem root_locks_free_rollForward :
    ∃ s, (rootSystem loadsDemo).run leftoverRoot rollForward = some s ∧
      ∀ p, ∃ q, Relation.ReflTransGen (Blocks s.locks s.waits) p q ∧
        ∀ lock mode, s.waits q = some (lock, mode) → grants s.locks lock mode = true := by
  have hrun : ((rootSystem loadsDemo).run leftoverRoot rollForward).isSome = true := by
    decide +kernel
  obtain ⟨s, hs⟩ := Option.isSome_iff_exists.mp hrun
  exact ⟨s, hs, (root_locks_free leftoverRoot_initial hs).2.1⟩

/-! ### What becomes of a checkpoint -/

/-- Whoever has a file open finds it there, and it is the one that later opens read. -/
structure Root.Consistent (s : Root) : Prop extends s.Inv where
  sees : ∀ p, (s.phase p).Sees s.files

theorem Root.Initial.consistent {s : Root} (h : s.Initial) : s.Consistent := by
  refine ⟨h.inv, fun p => ?_⟩
  rw [h.phase]
  trivial

theorem Root.Consistent.step {s s' : Root} {p : ℕ} (hs : s.Consistent) (h : Turn loads s s' p) :
    s'.Consistent := by
  refine ⟨hs.toInv.step h, fun q => ?_⟩
  by_cases hq : q = p
  · rw [hq]
    exact h.sees (hs.sees p)
  · rw [h.others q hq]
    apply (hs.sees q).grows
    intro t hworks
    rcases h.files t with hsame | hwrite
    · exact .inl hsame
    · refine .inr (hwrite.grows (fun himport => ?_) fun harchive => ?_)
      · exact hs.toInv.importing_alone himport hq hworks
      · have hroot := (Phase.holds_of_worksOn hworks).2
        rw [hs.toInv.archiving_alone harchive hq] at hroot
        cases hroot

/-- A checkpoint as it was written: its tenant, whether to `runtime.db`, its key and its row. -/
structure Written where
  tenant : String
  runtime : Bool
  key : CheckpointKey
  row : CheckpointRow
  deriving DecidableEq

/-- The checkpoints written to a tenant's files since an archive was last laid over them. -/
def seeWrites (s : Root) (l : RootLabel) (_ : Root) (written : List Written) : List Written :=
  match l with
  | .save p key row =>
    match s.phase p with
    | .live t runtime =>
      if (s.files t).checkpoint? runtime key = none then ⟨t, runtime, key, row⟩ :: written
      else written
    | _ => written
  | .extract _ t _ => written.filter fun w => !decide (w.tenant = t)
  | _ => written

/-- Its row is in the file, and an import has given its seq a row in `runtime.db`. -/
structure RunsRoot.Keeps (root : RunsRoot) (w : Written) : Prop where
  row : root.checkpoint? w.runtime w.key = some w.row
  imported : root.importComplete = true → ∃ row, root.checkpoint? true w.key = some row

theorem RunsRoot.Keeps.grows {root root' : RunsRoot} {w : Written} (h : root.Keeps w)
    (hgrows : root.Grows root') : root'.Keeps w := by
  refine ⟨hgrows.checkpoints _ _ _ h.row, fun hcomplete => ?_⟩
  rw [hgrows.complete] at hcomplete
  obtain ⟨row, hrow⟩ := h.imported hcomplete
  exact ⟨row, hgrows.checkpoints _ _ _ hrow⟩

theorem RunsRoot.Keeps.imports {root : RunsRoot} {w : Written} (h : root.Keeps w)
    (fault : Option FaultPoint) : (importUnderLock loads fault root).2.Keeps w := by
  obtain ⟨hlegacy, hext, hcomplete⟩ := root.importUnderLock_keeps loads fault
  have hruntime : ∀ row, root.checkpoint? true w.key = some row →
      (importUnderLock loads fault root).2.checkpoint? true w.key = some row := by
    intro row hrow
    rw [checkpoint?_runtime] at hrow ⊢
    exact hext.checkpoints _ _ hrow
  constructor
  · cases hw : w.runtime with
    | true => exact hruntime _ (hw ▸ h.row)
    | false =>
      have hrow := h.row
      rw [hw] at hrow
      unfold checkpoint? at hrow ⊢
      rw [hlegacy]
      exact hrow
  · intro hdone
    cases hw : w.runtime with
    | true => exact ⟨_, hruntime _ (hw ▸ h.row)⟩
    | false =>
      rcases hcomplete hdone with hbefore | hmerged
      · obtain ⟨row, hrow⟩ := h.imported hbefore
        exact ⟨row, hruntime row hrow⟩
      · have hrow := h.row
        rw [hw] at hrow
        obtain ⟨row, hget⟩ := hmerged.checkpoints _ (mem_legacyCheckpoints hrow)
        rw [← checkpoint?_runtime] at hget
        exact ⟨row, hget⟩

/-- The only writes of a restore are its extractions. -/
theorem extract_of_archiving {s s' : Root} {l : RootLabel} (h : rootStep loads s l = some s')
    (hphase : s.phase l.actor = .archiving) :
    s'.files = s.files ∨ ∃ p t archived, l = .extract p t archived := by
  cases l with
  | extract p t archived => exact .inr ⟨p, t, archived, rfl⟩
  | startApi p =>
    change s.phase p = _ at hphase
    simp only [rootStep, hphase, reduceCtorEq, if_false] at h
  | archive p =>
    change s.phase p = _ at hphase
    simp only [rootStep, hphase, reduceCtorEq, if_false] at h
  | archiveLock p =>
    change s.phase p = _ at hphase
    simp only [rootStep, hphase, reduceCtorEq, if_false] at h
  | _ p =>
    change s.phase p = _ at hphase
    simp only [rootStep, hphase, reduceCtorEq, Option.some.injEq] at h
    try exact .inl (h ▸ rfl)

theorem keeps_step {s s' : Root} {l : RootLabel} {written : List Written} (hs : s.Consistent)
    (hkeeps : ∀ w ∈ written, (s.files w.tenant).Keeps w) (h : rootStep loads s l = some s') :
    ∀ w ∈ seeWrites s l s' written, (s'.files w.tenant).Keeps w := by
  have hturn := rootStep_turn h
  -- Everything but a restore keeps what was written before.
  have hold : (∀ p t archived, l ≠ .extract p t archived) →
      ∀ w ∈ written, (s'.files w.tenant).Keeps w := by
    intro hextract w hw
    have hbefore := hkeeps w hw
    rcases hturn.files w.tenant with hsame | hwrite
    · rw [hsame]
      exact hbefore
    · by_cases harchive : s.phase l.actor = .archiving
      · rcases extract_of_archiving h harchive with hsame | ⟨p, t, archived, hl⟩
        · rw [hsame]
          exact hbefore
        · exact absurd hl (hextract p t archived)
      · by_cases himport : s.phase l.actor = .importing w.tenant
        · generalize s'.files w.tenant = files at hwrite
          cases hwrite with
          | imported fault => exact hbefore.imports fault
          | built runtime building => rw [building] at himport; cases himport
          | saved runtime key row live => rw [live] at himport; cases himport
          | operated runtime operations live => rw [live] at himport; cases himport
          | extracted archived archiving => exact absurd archiving harchive
        · exact hbefore.grows (hwrite.grows himport harchive)
  cases l with
  | save p key row =>
    intro w hw
    unfold seeWrites at hw
    dsimp only at hw
    split at hw
    · rename_i t runtime hphase
      split at hw
      · rename_i hnew
        rcases List.mem_cons.mp hw with rfl | hw
        · simp only [rootStep, hphase, Option.some.injEq] at h
          have hsees := hs.sees p
          rw [hphase] at hsees
          have hfiles : s'.files t = (s.files t).saved runtime key row := by
            rw [← h, Root.setFiles_files, if_pos rfl]
          dsimp only
          rw [hfiles]
          cases runtime with
          | true =>
            have hrow := RunsRoot.checkpoint?_saved row hnew hsees
            exact ⟨hrow, fun _ => ⟨row, hrow⟩⟩
          | false =>
            refine ⟨RunsRoot.checkpoint?_saved row hnew hsees.2, fun hcomplete => ?_⟩
            have hincomplete : (s.files t).importComplete = true := hcomplete
            rw [hsees.1] at hincomplete
            cases hincomplete
        · exact hold (fun _ _ _ => RootLabel.noConfusion) w hw
      · exact hold (fun _ _ _ => RootLabel.noConfusion) w hw
    · exact hold (fun _ _ _ => RootLabel.noConfusion) w hw
  | extract p t archived =>
    intro w hw
    obtain ⟨hmem, htenant⟩ := List.mem_filter.mp hw
    simp only [rootStep] at h
    split at h
    · cases h
      rw [Root.setFiles_files, if_neg (by simpa using htenant)]
      exact hkeeps w hmem
    · cases h
  | _ => exact hold fun _ _ _ => RootLabel.noConfusion

/-- Over every interleaving of opens, imports, handles, backups, restores and crashes, a checkpoint
stays in the file it was written to; once the import is recorded its seq is in `runtime.db`, and no
handle writes to the leftover files any more. -/
theorem checkpoints_kept {s₀ s : Root} {ls : List RootLabel} {written : List Written}
    (hinit : s₀.Initial)
    (hrun : ((rootSystem loads).monitor seeWrites).run (s₀, []) ls = some (s, written)) :
    (∀ w ∈ written, (s.files w.tenant).Keeps w) ∧
    ∀ p t, s.phase p = .live t false → (s.files t).importComplete = false := by
  have hI : s.Consistent ∧ ∀ w ∈ written, (s.files w.tenant).Keeps w := by
    apply System.run_invariant (T := (rootSystem loads).monitor seeWrites)
      (I := fun m => m.1.Consistent ∧ ∀ w ∈ m.2, (m.1.files w.tenant).Keeps w) _ _ hrun
    · intro m l m' hm hstep
      obtain ⟨hroot, hwritten⟩ := System.monitor_step.mp hstep
      refine ⟨hm.1.step (rootStep_turn hroot), ?_⟩
      rw [hwritten]
      exact keeps_step hm.1 hm.2 hroot
    · exact ⟨hinit.consistent, fun w hw => absurd hw List.not_mem_nil⟩
  refine ⟨hI.2, fun p t hphase => ?_⟩
  have hsees := hI.1.sees p
  rw [hphase] at hsees
  exact hsees.1

theorem checkpoints_kept_rollForward :
    ∃ s written, ((rootSystem loadsDemo).monitor seeWrites).run (leftoverRoot, []) rollForward =
        some (s, written) ∧
      written = [⟨"acme", true, ⟨"run-a", 3⟩, intakeCheckpoint⟩,
        ⟨"acme", false, ⟨"run-a", 2⟩, planCheckpoint⟩] ∧
      ∀ w ∈ written, (s.files w.tenant).Keeps w := by
  have hrun : (((rootSystem loadsDemo).monitor seeWrites).run (leftoverRoot, []) rollForward).map
      Prod.snd = some [⟨"acme", true, ⟨"run-a", 3⟩, intakeCheckpoint⟩,
        ⟨"acme", false, ⟨"run-a", 2⟩, planCheckpoint⟩] := by decide +kernel
  obtain ⟨⟨s, written⟩, hm, hwritten⟩ := Option.map_eq_some_iff.mp hrun
  exact ⟨s, written, hm, hwritten, (checkpoints_kept leftoverRoot_initial hm).1⟩

end Recertia.Persistence
