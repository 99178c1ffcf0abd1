import Recertia.Lib.Fallible
import Recertia.Persistence.LegacyImport

/-! What an import leaves in `runtime.db`: all rows as they were, or the legacy rows merged into
them. -/
namespace Recertia.Persistence

open Fallible Json

variable {loads : String → Except LoadError PyValue}

/-- The rows of `dest` are in `dest'` as they were. -/
structure Extends (dest dest' : Rows) : Prop where
  checkpoints : ∀ key row, dest.checkpoints.get? key = some row →
    dest'.checkpoints.get? key = some row
  operations : ∀ key row, dest.operations.get? key = some row →
    dest'.operations.get? key = some row

theorem Extends.refl (dest : Rows) : Extends dest dest := ⟨fun _ _ h => h, fun _ _ h => h⟩

theorem Extends.trans {a b c : Rows} (hab : Extends a b) (hbc : Extends b c) : Extends a c :=
  ⟨fun k row h => hbc.checkpoints k row (hab.checkpoints k row h),
    fun k row h => hbc.operations k row (hab.operations k row h)⟩

/-- A legacy operation that the import does not drop. -/
def Completed (loads : String → Except LoadError PyValue) (row : OperationRow) : Prop :=
  isPendingJson loads row.resultJson = .ok false

/-- What a statement has put into the rows, or found in them. -/
def ImportStep.Present (loads : String → Except LoadError PyValue) (dest : Rows) : ImportStep → Prop
  | .checkpoint key _ => ∃ row, dest.checkpoints.get? key = some row
  | .operation key row => Completed loads row → dest.operations.get? key = some row
  | .record => True

theorem ImportStep.Present.mono {dest dest' : Rows} {step : ImportStep} (h : step.Present loads dest)
    (hext : Extends dest dest') : step.Present loads dest' := by
  cases step with
  | checkpoint key row =>
    obtain ⟨row', hrow'⟩ := h
    exact ⟨row', hext.checkpoints key row' hrow'⟩
  | operation key row => exact fun hcompleted => hext.operations key row (h hcompleted)
  | record => trivial

/-! ### One statement -/

theorem copyCheckpoint_spec (key : CheckpointKey) (row : CheckpointRow) (dest : Rows) :
    Extends dest (copyCheckpoint key row dest) ∧
      (∃ row', (copyCheckpoint key row dest).checkpoints.get? key = some row') ∧
      (copyCheckpoint key row dest).operations = dest.operations := by
  unfold copyCheckpoint
  cases hget : dest.checkpoints.get? key with
  | some existing => exact ⟨.refl dest, ⟨existing, hget⟩, rfl⟩
  | none =>
    refine ⟨⟨fun k row' hrow' => ?_, fun _ _ h => h⟩, ⟨row, ?_⟩, rfl⟩
    · have hne : k ≠ key := by
        intro heq
        rw [heq, hget] at hrow'
        cases hrow'
      dsimp only
      rw [Table.get?_insertOrIgnore_new hget, if_neg hne]
      exact hrow'
    · dsimp only
      rw [Table.get?_insertOrIgnore_new hget, if_pos rfl]

/-- A pending operation is dropped, a completed one is found as it is, or added. -/
theorem copyOperation_eq_ok {key : OperationKey} {row : OperationRow} {dest dest' : Rows}
    (h : copyOperation loads key row dest = .ok dest') :
    dest' = dest ∧ (Completed loads row → dest.operations.get? key = some row) ∨
    dest.operations.get? key = none ∧
      dest' = { dest with operations := dest.operations.insertOrIgnore key row } := by
  unfold copyOperation at h
  obtain ⟨pending, hpending, h⟩ := bind_eq_ok.mp h
  cases pending with
  | true =>
    cases h
    refine .inl ⟨rfl, fun hcompleted => ?_⟩
    rw [Completed, hpending] at hcompleted
    cases hcompleted
  | false =>
    simp only [Bool.false_eq_true, if_false] at h
    cases hget : dest.operations.get? key with
    | none =>
      simp only [hget] at h
      cases h
      exact .inr ⟨rfl, rfl⟩
    | some existing =>
      simp only [hget] at h
      split at h
      · rename_i heq
        cases h
        exact .inl ⟨rfl, fun _ => congrArg some heq⟩
      · cases h

theorem copyOperation_eq_error {key key' : OperationKey} {row : OperationRow} {dest : Rows}
    (h : copyOperation loads key row dest = .error (.stateCorrupt key')) :
    key' = key ∧ Completed loads row ∧
      ∃ existing, dest.operations.get? key = some existing ∧ existing ≠ row := by
  unfold copyOperation at h
  rcases bind_eq_error.mp h with hpending | ⟨pending, hpending, h⟩
  · unfold isPendingJson at hpending
    split at hpending <;> cases hpending
  · cases pending with
    | true => cases h
    | false =>
      simp only [Bool.false_eq_true, if_false] at h
      cases hget : dest.operations.get? key with
      | none =>
        simp only [hget] at h
        cases h
      | some existing =>
        simp only [hget] at h
        split at h
        · cases h
        · rename_i hne
          cases h
          exact ⟨rfl, hpending, existing, rfl, hne⟩

def ImportStep.operationKey? : ImportStep → Option OperationKey
  | .operation key _ => some key
  | _ => none

/-- A statement keeps the rows, does its part, and leaves the other operations alone. -/
theorem ImportStep.execute_spec {step : ImportStep} {dest dest' : Rows}
    (h : step.execute loads dest = .ok dest') :
    Extends dest dest' ∧ step.Present loads dest' ∧
      ∀ key, step.operationKey? ≠ some key → dest'.operations.get? key = dest.operations.get? key := by
  cases step with
  | checkpoint key row =>
    cases h
    obtain ⟨hext, hpresent, hops⟩ := copyCheckpoint_spec key row dest
    exact ⟨hext, hpresent, fun k _ => by rw [hops]⟩
  | operation key row =>
    obtain ⟨rfl, hpresent⟩ | ⟨hget, rfl⟩ := copyOperation_eq_ok h
    · exact ⟨.refl _, hpresent, fun _ _ => rfl⟩
    · refine ⟨⟨fun _ _ h => h, fun k row' hrow' => ?_⟩, fun _ => ?_, fun k hk => ?_⟩
      · have hne : k ≠ key := by
          intro heq
          rw [heq, hget] at hrow'
          cases hrow'
        dsimp only
        rw [Table.get?_insertOrIgnore_new hget, if_neg hne]
        exact hrow'
      · dsimp only
        rw [Table.get?_insertOrIgnore_new hget, if_pos rfl]
      · have hne : k ≠ key := fun heq => hk (congrArg some heq.symm)
        dsimp only
        rw [Table.get?_insertOrIgnore_new hget, if_neg hne]
  | record =>
    cases h
    exact ⟨.refl _, trivial, fun _ _ => rfl⟩

/-! ### The transaction -/

theorem runSteps_cons {step : ImportStep} {steps : List ImportStep} {fault : Option ℕ}
    (dest : Rows) (hfault : fault ≠ some 0) :
    runSteps loads (step :: steps) fault dest =
      (step.execute loads dest >>= runSteps loads steps (fault.map Nat.pred)) := by
  cases fault with
  | none => rfl
  | some n =>
    cases n with
    | zero => exact absurd rfl hfault
    | succ n => rfl

/-- A transaction that commits has kept all rows and done each statement's part. -/
theorem runSteps_eq_ok {steps : List ImportStep} {fault : Option ℕ} {dest dest' : Rows}
    (h : runSteps loads steps fault dest = .ok dest') :
    Extends dest dest' ∧ ∀ step ∈ steps, step.Present loads dest' := by
  induction steps generalizing fault dest with
  | nil =>
    unfold runSteps at h
    cases h
    exact ⟨.refl _, fun step hstep => absurd hstep List.not_mem_nil⟩
  | cons step steps ih =>
    by_cases hfault : fault = some 0
    · subst hfault
      cases h
    · rw [runSteps_cons dest hfault] at h
      obtain ⟨mid, hmid, hrest⟩ := bind_eq_ok.mp h
      obtain ⟨hext, hpresent, -⟩ := ImportStep.execute_spec hmid
      obtain ⟨hext', hpresents⟩ := ih hrest
      refine ⟨hext.trans hext', fun s hs => ?_⟩
      rcases List.mem_cons.mp hs with rfl | hs
      · exact hpresent.mono hext'
      · exact hpresents s hs

/-- A conflict is one with a row that was there before the transaction, since no two of its
statements are for one operation. -/
theorem runSteps_eq_corrupt {steps : List ImportStep} {fault : Option ℕ} {dest : Rows}
    {key : OperationKey} (hkeys : (steps.filterMap ImportStep.operationKey?).Nodup)
    (h : runSteps loads steps fault dest = .error (.stateCorrupt key)) :
    ∃ row existing, .operation key row ∈ steps ∧ Completed loads row ∧
      dest.operations.get? key = some existing ∧ existing ≠ row := by
  induction steps generalizing fault dest with
  | nil =>
    unfold runSteps at h
    cases h
  | cons step steps ih =>
    by_cases hfault : fault = some 0
    · subst hfault
      cases h
    · rw [runSteps_cons dest hfault] at h
      rcases bind_eq_error.mp h with herror | ⟨mid, hmid, hrest⟩
      · cases step with
        | checkpoint key' row => cases herror
        | operation key' row =>
          obtain ⟨rfl, hcompleted, existing, hexisting, hne⟩ := copyOperation_eq_error herror
          exact ⟨row, existing, List.mem_cons_self, hcompleted, hexisting, hne⟩
        | record => cases herror
      · have htail : (steps.filterMap ImportStep.operationKey?).Nodup :=
          hkeys.sublist ((List.sublist_cons_self step steps).filterMap _)
        obtain ⟨row, existing, hmem, hcompleted, hexisting, hne⟩ := ih htail hrest
        obtain ⟨-, -, hframe⟩ := ImportStep.execute_spec hmid
        have hother : step.operationKey? ≠ some key := by
          intro hkey
          rw [List.filterMap_cons, hkey, List.nodup_cons] at hkeys
          exact hkeys.1 (List.mem_filterMap.mpr ⟨_, hmem, rfl⟩)
        rw [hframe key hother] at hexisting
        exact ⟨row, existing, List.mem_cons_of_mem step hmem, hcompleted, hexisting, hne⟩

theorem nodup_selected (table : OperationsTable) : (table.selected.map Prod.fst).Nodup := by
  cases table with
  | missing => exact List.nodup_nil
  | baseline rows => exact nodup_baselineRows rows
  | live rows => exact rows.nodup
  | interrupted rel3 => exact List.nodup_nil

theorem operationKeys_importSteps (root : RunsRoot) :
    (importSteps root).filterMap ImportStep.operationKey? =
      root.legacyOperations.map Prod.fst := by
  have hcheckpoints : (root.legacyCheckpoints.map fun row => ImportStep.checkpoint row.1 row.2
      ).filterMap ImportStep.operationKey? = [] := by
    rw [List.filterMap_eq_nil_iff]
    intro step hstep
    obtain ⟨row, -, rfl⟩ := List.mem_map.mp hstep
    rfl
  have hoperations : (root.legacyOperations.map fun row => ImportStep.operation row.1 row.2
      ).filterMap ImportStep.operationKey? = root.legacyOperations.map Prod.fst := by
    rw [List.filterMap_map, ← List.filterMap_eq_map]
    rfl
  have hrecord : [ImportStep.record].filterMap ImportStep.operationKey? = [] := rfl
  rw [importSteps, List.filterMap_append, List.filterMap_append, hcheckpoints, hoperations, hrecord,
    List.nil_append, List.append_nil]

theorem nodup_operationKeys (root : RunsRoot) :
    ((importSteps root).filterMap ImportStep.operationKey?).Nodup := by
  rw [operationKeys_importSteps, RunsRoot.legacyOperations]
  cases root.operationsDb with
  | none => exact List.nodup_nil
  | some table => exact nodup_selected table

theorem checkpoint_mem_importSteps {root : RunsRoot} {row : CheckpointKey × CheckpointRow}
    (h : row ∈ root.legacyCheckpoints) : .checkpoint row.1 row.2 ∈ importSteps root :=
  List.mem_append_left _ (List.mem_append_left _ (List.mem_map.mpr ⟨row, h, rfl⟩))

theorem operation_mem_importSteps {root : RunsRoot} {key : OperationKey} {row : OperationRow} :
    .operation key row ∈ importSteps root ↔ (key, row) ∈ root.legacyOperations := by
  constructor
  · intro h
    rcases List.mem_append.mp h with h | h
    · rcases List.mem_append.mp h with h | h
      · obtain ⟨row', -, heq⟩ := List.mem_map.mp h
        cases heq
      · obtain ⟨row', hmem, heq⟩ := List.mem_map.mp h
        cases heq
        exact hmem
    · cases List.mem_singleton.mp h
  · intro h
    exact List.mem_append_left _ (List.mem_append_right _ (List.mem_map.mpr ⟨_, h, rfl⟩))

/-! ### The import -/

def RunsRoot.rows (root : RunsRoot) : Rows := (root.runtimeDb.getD {}).rows

/-- Every legacy checkpoint has its seq and every completed legacy operation its row, and what was
there is as it was. -/
structure Merged (loads : String → Except LoadError PyValue) (root : RunsRoot) (dest dest' : Rows) :
    Prop where
  checkpoints : ∀ row ∈ root.legacyCheckpoints, ∃ row', dest'.checkpoints.get? row.1 = some row'
  operations : ∀ key row, (key, row) ∈ root.legacyOperations → Completed loads row →
    dest'.operations.get? key = some row
  kept : Extends dest dest'

theorem merged_of_runSteps {root : RunsRoot} {fault : Option ℕ} {dest dest' : Rows}
    (h : runSteps loads (importSteps root) fault dest = .ok dest') : Merged loads root dest dest' := by
  obtain ⟨hext, hpresent⟩ := runSteps_eq_ok h
  exact ⟨fun row hrow => hpresent _ (checkpoint_mem_importSteps hrow),
    fun key row hrow => hpresent _ (operation_mem_importSteps.mpr hrow), hext⟩

/-- How an import ends on a database that has not recorded one. -/
inductive ImportEnds (loads : String → Except LoadError PyValue) (root : RunsRoot) :
    Except ImportError Bool → RunsRoot → Prop
  /-- There is no legacy file. -/
  | nothing (hpending : root.pending = false) : ImportEnds loads root (.ok true) root
  | kept {e : ImportError} {root' : RunsRoot} (rows : root'.rows = root.rows)
    (corrupt : ∀ key, e = .stateCorrupt key → ∃ row existing, (key, row) ∈ root.legacyOperations ∧
      Completed loads row ∧ root.rows.operations.get? key = some existing ∧ existing ≠ row) :
    ImportEnds loads root (.error e) root'
  | merged {result : Except ImportError Bool} {root' : RunsRoot}
    (rows : Merged loads root root.rows root'.rows) (complete : root'.importComplete = true)
    (honest : result = .ok true ∨ result = .error .storage) : ImportEnds loads root result root'

theorem importLegacyRuntime_ends (loads : String → Except LoadError PyValue)
    (fault : Option FaultPoint) {root : RunsRoot} (hnew : root.importComplete = false) :
    ImportEnds loads root (importLegacyRuntime loads fault root).1
      (importLegacyRuntime loads fault root).2 := by
  unfold importLegacyRuntime
  split
  · rename_i hpending
    exact .nothing hpending
  · split
    · exact .kept rfl fun key h => by cases h
    · have himported : (root.runtimeDb.getD {}).imported = false := by
        unfold RunsRoot.importComplete at hnew
        cases hdb : root.runtimeDb with
        | none => rfl
        | some runtime =>
          rw [hdb] at hnew
          exact hnew
      unfold importUnderLock
      dsimp only
      split
      · exact .kept rfl fun key h => by cases h
      · split
        · exact .kept rfl fun key h => by cases h
        · rw [himported, if_neg Bool.false_ne_true]
          split
          · rename_i e herror
            refine .kept rfl fun key hkey => ?_
            rw [hkey] at herror
            obtain ⟨row, existing, hmem, hcompleted, hexisting, hne⟩ :=
              runSteps_eq_corrupt (nodup_operationKeys _) herror
            exact ⟨row, existing, operation_mem_importSteps.mp hmem, hcompleted, hexisting, hne⟩
          · rename_i rows hrows
            have hmerged : Merged loads root root.rows rows := merged_of_runSteps hrows
            unfold retire
            split
            · exact .merged hmerged rfl (.inr rfl)
            · exact .merged hmerged rfl (.inl rfl)

/-- An import that has nothing left to do. -/
theorem import_again (loads : String → Except LoadError PyValue) (fault : Option FaultPoint)
    {root : RunsRoot} (h : root.pending = false) :
    importLegacyRuntime loads fault root = (.ok true, root) := by
  rw [importLegacyRuntime, if_pos h]

theorem not_pending_of_complete {root : RunsRoot} (h : root.importComplete = true) :
    root.pending = false := by
  rw [RunsRoot.pending, h, Bool.not_true, Bool.and_false]

/-- An import into a database that has not recorded one either raises and leaves its rows as they
were, or merges the legacy rows into them; once it has returned, another import changes nothing; and
it raises `StateCorrupt` only where a completed legacy operation meets a row of its key that has
another result or another fencing token. -/
theorem legacy_import_merges (loads : String → Except LoadError PyValue)
    (fault : Option FaultPoint) (root : RunsRoot) (hnew : root.importComplete = false) :
    ((∃ e, (importLegacyRuntime loads fault root).1 = .error e) ∧
        (importLegacyRuntime loads fault root).2.rows = root.rows ∨
      Merged loads root root.rows (importLegacyRuntime loads fault root).2.rows) ∧
    ((importLegacyRuntime loads fault root).1 = .ok true → ∀ again,
      importLegacyRuntime loads again (importLegacyRuntime loads fault root).2 =
        (.ok true, (importLegacyRuntime loads fault root).2)) ∧
    ∀ key, (importLegacyRuntime loads fault root).1 = .error (.stateCorrupt key) →
      ∃ row existing, (key, row) ∈ root.legacyOperations ∧ Completed loads row ∧
        root.rows.operations.get? key = some existing ∧ existing ≠ row := by
  have hends := importLegacyRuntime_ends loads fault hnew
  generalize importLegacyRuntime loads fault root = answer at hends
  obtain ⟨result, root'⟩ := answer
  dsimp only at hends ⊢
  cases hends with
  | nothing hpending =>
    refine ⟨.inr ?_, fun _ again => import_again loads again hpending, fun key h => by cases h⟩
    have hnone : root.checkpointsDb = none ∧ root.operationsDb = none := by
      rw [RunsRoot.pending, hnew, Bool.not_false, Bool.and_true, Bool.or_eq_false_iff,
        Option.isSome_eq_false_iff, Option.isSome_eq_false_iff, Option.isNone_iff_eq_none,
        Option.isNone_iff_eq_none] at hpending
      exact hpending
    refine ⟨fun row hrow => ?_, fun key row hrow => ?_, .refl _⟩
    · rw [RunsRoot.legacyCheckpoints, hnone.1] at hrow
      exact absurd hrow List.not_mem_nil
    · rw [RunsRoot.legacyOperations, hnone.2] at hrow
      exact absurd hrow List.not_mem_nil
  | kept hrows hcorrupt =>
    refine ⟨.inl ⟨⟨_, rfl⟩, hrows⟩, fun h => ?_, fun key h => hcorrupt key (Except.error.inj h)⟩
    cases h
  | merged hmerged hcomplete hresult =>
    refine ⟨.inr hmerged, fun _ again => ?_, fun key h => ?_⟩
    · exact import_again loads again (not_pending_of_complete hcomplete)
    · rcases hresult with hresult | hresult <;> rw [hresult] at h <;> cases h

/-! ### Imports on fixed rows -/

def okText : String := "\x7b\"ok\": true\x7d"

def pendingText : String := "\x7b\"__pending__\": true\x7d"

/-- `json.loads` of the two texts. -/
def loadsDemo (raw : String) : Except LoadError PyValue :=
  if raw = pendingText then .ok (.dict [("__pending__", .bool true)])
  else if raw = okText then .ok (.dict [("ok", .bool true)])
  else .error .valueError

def intakeCheckpoint : CheckpointRow := ⟨"intake", some "retrieve", "\x7b\x7d", "2025-01-01", none⟩

def planCheckpoint : CheckpointRow := ⟨"intake", some "plan", "\x7b\x7d", "2025-01-01", none⟩

def solveOperation : OperationKey := ⟨⟨"run-a", 1, "solve", 0⟩, 1⟩

/-- A legacy checkpoint and a legacy operation, and a database with rows of their keys. -/
def demoRoot (checkpoint : CheckpointRow) (operation : Option OperationRow) (imported : Bool) :
    RunsRoot where
  checkpointsDb := some (Table.empty.insertOrIgnore ⟨"run-a", 0⟩ intakeCheckpoint)
  operationsDb := some (.baseline
    (Table.empty.insertOrIgnore ⟨"run-a", 1, "solve", 0⟩ (1, ⟨okText, none⟩)))
  runtimeDb := some
    { checkpoints := Table.empty.insertOrIgnore ⟨"run-a", 1⟩ checkpoint
      operations := .live (operation.elim .empty (Table.empty.insertOrIgnore solveOperation))
      imported }

theorem equal_operation_merges :
    (importLegacyRuntime loadsDemo none (demoRoot planCheckpoint (some ⟨okText, none⟩) false)).1 =
      .ok true ∧
    Merged loadsDemo (demoRoot planCheckpoint (some ⟨okText, none⟩) false)
      (demoRoot planCheckpoint (some ⟨okText, none⟩) false).rows
      (importLegacyRuntime loadsDemo none
        (demoRoot planCheckpoint (some ⟨okText, none⟩) false)).2.rows := by
  have hok : (importLegacyRuntime loadsDemo none
      (demoRoot planCheckpoint (some ⟨okText, none⟩) false)).1 = .ok true := by decide +kernel
  have himport := legacy_import_merges loadsDemo none
    (demoRoot planCheckpoint (some ⟨okText, none⟩) false) rfl
  rcases himport.1 with ⟨⟨e, he⟩, -⟩ | hmerged
  · rw [hok] at he
    cases he
  · exact ⟨hok, hmerged⟩

/-- A database that has recorded an import returns without the legacy rows; and a pending row, and a
row with the same result under another fencing token, each meet a completed legacy operation as
corruption. -/
theorem pending_row_is_corrupt :
    ((importLegacyRuntime loadsDemo none (demoRoot planCheckpoint none true)).1 = .ok true ∧
      (importLegacyRuntime loadsDemo none (demoRoot planCheckpoint none true)
        ).2.rows.checkpoints.get? ⟨"run-a", 0⟩ = none) ∧
    (importLegacyRuntime loadsDemo none
        (demoRoot planCheckpoint (some ⟨pendingText, none⟩) false)).1 =
      .error (.stateCorrupt solveOperation) ∧
    (importLegacyRuntime loadsDemo none
        (demoRoot planCheckpoint (some ⟨okText, some 7⟩) false)).1 =
      .error (.stateCorrupt solveOperation) := by
  refine ⟨⟨by decide +kernel, by decide +kernel⟩, by decide +kernel, by decide +kernel⟩

end Recertia.Persistence
