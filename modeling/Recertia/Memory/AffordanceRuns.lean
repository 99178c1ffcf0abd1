import Recertia.Lib.Transition
import Recertia.Memory.AffordanceRecords

/-! Instances of the affordance store, in any number of processes, on one runs root with a legacy
file: their records, errors of the storage, and crashes. -/
namespace Recertia.Affordance

open Sql Fallible
open Json (LoadError PyFloat)

/-- What `runtime.db` has committed. -/
structure Db where
  /-- the `checksum` of the import's row in `schema_migrations` -/
  marker : Option ImportStatus := none
  rows : Rows := {}

/-- Where an instance is in `_write_conn`. -/
inductive Phase
  | closed
  | importing
  /-- behind the commit of the import, with a file to rename or without -/
  | committed (renames : Bool)
  /-- `_writer` is set -/
  | ready
  deriving DecidableEq

structure World (Content : Type*) where
  file : Option Content
  /-- the files named `.corrupt-<ns>` -/
  corrupt : List Content := []
  /-- the files named `.imported` -/
  retired : List Content := []
  db : Db := {}
  /-- the transaction of an import: its instance, and what it has to commit -/
  txn : Option (ℕ × Option (Db × Bool)) := none
  phase : ℕ → Phase := fun _ => .closed
  /-- the records that were committed -/
  log : List Record := []

inductive Label
  /-- `BEGIN IMMEDIATE` of the import -/
  | lock (i : ℕ)
  | work (i : ℕ)
  | commit (i : ℕ)
  | rename (i : ℕ) (fails : Bool)
  | record (i : ℕ) (r : Record)
  /-- an error of the storage in a call -/
  | fault (i : ℕ)
  | crash (i : ℕ)
  | close (i : ℕ)

variable {Content : Type*} (loads : Content → Except LoadError JsonValue) (P : Platform)
  (caps : ℕ → SampleCap)

def World.setPhase (w : World Content) (i : ℕ) (phase : Phase) : World Content :=
  { w with phase := fun j => if j = i then phase else w.phase j }

/-- The end of an instance's transaction, if it has one, and of its connection. -/
def World.abandon (w : World Content) (i : ℕ) : World Content :=
  { w.setPhase i .closed with txn := w.txn.filter fun t => t.1 ≠ i }

/-- The file is renamed to a fresh name, if it is there. -/
def World.retire (w : World Content) : World Content :=
  { w with file := none, retired := w.retired ++ w.file.toList }

def World.setAside (w : World Content) : World Content :=
  { w with file := none, corrupt := w.corrupt ++ w.file.toList }

/-- The statements of `_import_legacy` between `BEGIN IMMEDIATE` and `COMMIT`. -/
def work (i : ℕ) (w : World Content) : World Content :=
  match w.db.marker with
  | some _ => { w with txn := some (i, some (w.db, w.file.isSome)) }
  | none =>
    match importLegacy loads P (caps i) w.file w.db.rows with
    | .error _ => w.abandon i
    | .ok (status, rows) =>
      { (if status = .corrupt then w.setAside else w) with
        txn := some (i, some (⟨some status, rows⟩, status = .imported)) }

def record (i : ℕ) (r : Record) (w : World Content) : World Content :=
  match r.commit P (caps i) w.db.rows with
  | .error _ => w
  | .ok rows => { w with db := { w.db with rows }, log := w.log ++ [r] }

def step (w : World Content) : Label → Option (World Content)
  | .lock i =>
    match w.phase i, w.txn with
    | .closed, none => some { w.setPhase i .importing with txn := some (i, none) }
    | _, _ => none
  | .work i =>
    match w.txn with
    | some (j, none) => if j = i then some (work loads P caps i w) else none
    | _ => none
  | .commit i =>
    match w.txn with
    | some (j, some (db, renames)) =>
      if j = i then some { w.setPhase i (.committed renames) with db, txn := none } else none
    | _ => none
  | .rename i fails =>
    match w.phase i with
    | .committed renames =>
      some ((if renames && !fails then w.retire else w).setPhase i .ready)
    | _ => none
  | .record i r =>
    match w.phase i, w.txn with
    | .ready, none => some (record P caps i r w)
    | _, _ => none
  -- The import closes its connection on an error; a record rolls back and keeps it.
  | .fault i => some (if w.phase i = .importing then w.abandon i else w)
  | .crash i => some (w.abandon i)
  | .close i => if w.phase i = .ready then some (w.setPhase i .closed) else none

def system : Transition.System (World Content) Label := ⟨step loads P caps⟩

/-- A runs root with the file, and no instance yet. -/
def start (file : Option Content) : World Content := { file }

/-! ### The counters of a run -/

/-- What there is to import. -/
def legacyAggregates (file : Option Content) : Option Aggregates :=
  file.bind fun content => (parseLegacy loads content).toOption.join

/-- What the legacy file has for a counter. -/
def legacyValue (file : Option Content) (k : Counter) : Value :=
  ((legacyAggregates loads file).map fun agg => agg.value P k).getD (.ofInt 0)

/-- The records that touch a counter, and whether each of them counts. -/
def marks (log : List Record) (k : Counter) : List Bool := log.filterMap fun r => r.mark? k

/-- Each counter is its legacy value plus the records, each of them counted once. -/
def Counted (file : Option Content) (db : Db) (log : List Record) : Prop :=
  db.marker ≠ none → ∀ k,
    db.rows.value k = (legacyValue loads P file k).total P.sql (marks log k)

/-- The legacy file is imported, and there or renamed, or it is set aside. -/
def Settled (file : Option Content) (w : World Content) (marker : Option ImportStatus) : Prop :=
  marker ≠ none → ∀ content, file = some content →
    (∃ agg, parseLegacy loads content = .ok (some agg)) ∧ marker = some .imported ∧
        (w.file = some content ∨ content ∈ w.retired) ∨
      parseLegacy loads content = .ok none ∧ w.file = none ∧ content ∈ w.corrupt

/-- A file that the import takes, or sets aside. -/
def Accepted (cap : SampleCap) (content : Content) : Prop :=
  ∃ parsed, parseLegacy loads content = .ok parsed ∧ ∀ agg, parsed = some agg → agg.Storable P cap

/-- A record call that starts comes to its commit unless a fault strikes; behind each step the
counters are right, and the file is imported or set aside. -/
structure Survives (file : Option Content) (w : World Content) (l : Label) (t : World Content) :
    Prop where
  opens : ∀ i r fails, l = .lock i → r.bindable = true → ∃ u,
    (system loads P caps).run t [.work i, .commit i, .rename i fails, .record i r] = some u ∧
      u.log = t.log ++ [r]
  records : ∀ i r, l = .record i r → r.bindable = true → t.log = w.log ++ [r]
  counted : Counted loads P file t.db t.log
  settled : Settled loads file t t.db.marker

/-- An import without a marker finds a file that it takes or sets aside, and a record adds to no
counter at the end of 64 bits. -/
structure Admissible (w : World Content) (l : Label) : Prop where
  accepted : ∀ i content, l = .lock i → w.db.marker = none → w.file = some content →
    Accepted loads P (caps i) content
  fits : ∀ i r k n, l = .record i r → r.bindable = true → r.mark? k = some true →
    (w.db.rows.value k).numeric P.sql = .integer n → n < maxInteger

variable {loads P caps}

/-! ### The import -/

theorem importLegacy_isOk {cap : SampleCap} {file : Option Content} :
    (∃ x, importLegacy loads P cap file {} = .ok x) ↔
      ∀ content, file = some content → Accepted loads P cap content := by
  cases file with
  | none => exact iff_of_true ⟨_, rfl⟩ (fun content h => by cases h)
  | some content =>
    simp only [importLegacy, bind_isOk, Option.some.injEq, forall_eq']
    constructor
    · rintro ⟨parsed, hparsed, x, hx⟩
      refine ⟨parsed, hparsed, fun agg hagg => ?_⟩
      subst hagg
      obtain ⟨rows, hrows, -⟩ := bind_eq_ok.mp hx
      exact insertLegacy_isOk.mp ⟨rows, hrows⟩
    · rintro ⟨parsed, hparsed, hstorable⟩
      refine ⟨parsed, hparsed, ?_⟩
      cases parsed with
      | none => exact ⟨_, rfl⟩
      | some agg =>
        obtain ⟨rows, hrows⟩ := insertLegacy_isOk.mpr (hstorable agg rfl)
        exact ⟨_, bind_eq_ok.mpr ⟨rows, hrows, rfl⟩⟩

/-- What an import commits: no file, a file set aside, or the counters of the file. -/
theorem importLegacy_eq_ok {cap : SampleCap} {file : Option Content} {status : ImportStatus}
    {rows : Rows} (h : importLegacy loads P cap file {} = .ok (status, rows)) :
    (file = none ∧ status = .noFile ∨
      (∃ content, file = some content ∧ parseLegacy loads content = .ok none) ∧ status = .corrupt ∨
      (∃ content agg, file = some content ∧ parseLegacy loads content = .ok (some agg)) ∧
        status = .imported) ∧
    ∀ k, rows.value k = legacyValue loads P file k := by
  cases file with
  | none =>
    cases h
    exact ⟨.inl ⟨rfl, rfl⟩, fun k => by cases k <;> rfl⟩
  | some content =>
    obtain ⟨parsed, hparsed, h⟩ := bind_eq_ok.mp h
    have hlegacy (k : Counter) : legacyValue loads P (some content) k =
        (parsed.map fun agg => agg.value P k).getD (.ofInt 0) := by
      rw [legacyValue, legacyAggregates, Option.bind_some, hparsed]
      rfl
    cases parsed with
    | none =>
      cases h
      refine ⟨.inr (.inl ⟨⟨content, rfl, hparsed⟩, rfl⟩), fun k => ?_⟩
      rw [hlegacy]
      cases k <;> rfl
    | some agg =>
      obtain ⟨rows', hrows, h⟩ := bind_eq_ok.mp h
      cases h
      refine ⟨.inr (.inr ⟨⟨content, agg, rfl, hparsed⟩, rfl⟩), fun k => ?_⟩
      rw [hlegacy]
      exact value_insertLegacy hrows k

theorem legacyValue_of_corrupt {content : Content} (h : parseLegacy loads content = .ok none)
    (k : Counter) : legacyValue loads P (some content) k = legacyValue loads P none k := by
  rw [legacyValue, legacyAggregates, Option.bind_some, h]
  rfl

/-! ### The invariant -/

structure Inv (loads : Content → Except LoadError JsonValue) (P : Platform) (file : Option Content)
    (w : World Content) : Prop where
  /-- without a marker nothing is counted, and the file is there or set aside -/
  unmarked : w.db.marker = none → w.db.rows = {} ∧ w.log = [] ∧ (w.file = file ∨
    w.file = none ∧ ∃ content, file = some content ∧ parseLegacy loads content = .ok none ∧
      content ∈ w.corrupt)
  /-- nor is any instance behind its import -/
  opened : w.db.marker = none → ∀ i, w.phase i = .closed ∨ w.phase i = .importing
  counted : Counted loads P file w.db w.log
  settled : Settled loads file w w.db.marker
  /-- an import that has done its work is right to commit -/
  pending : ∀ i db renames, w.txn = some (i, some (db, renames)) →
    db.marker ≠ none ∧ Counted loads P file db w.log ∧ Settled loads file w db.marker

theorem Inv.start (file : Option Content) : Inv loads P file (start file) where
  unmarked _ := ⟨rfl, rfl, .inl rfl⟩
  opened _ _ := .inl rfl
  counted h := absurd rfl h
  settled h := absurd rfl h
  pending _ _ _ h := by cases h

variable {file : Option Content} {w : World Content}

theorem Inv.setPhase (hw : Inv loads P file w) {i : ℕ} {phase : Phase}
    (hphase : w.db.marker = none → phase = .closed ∨ phase = .importing) :
    Inv loads P file (w.setPhase i phase) where
  unmarked := hw.unmarked
  opened hmarker j := by
    by_cases hj : j = i
    · simp only [World.setPhase, if_pos hj]
      exact hphase hmarker
    · simp only [World.setPhase, if_neg hj]
      exact hw.opened hmarker j
  counted := hw.counted
  settled := hw.settled
  pending := hw.pending

theorem Inv.abandon (hw : Inv loads P file w) (i : ℕ) : Inv loads P file (w.abandon i) where
  unmarked := hw.unmarked
  opened := by
    have hclosed : Inv loads P file (w.setPhase i .closed) := hw.setPhase fun _ => .inl rfl
    exact hclosed.opened
  counted := hw.counted
  settled := hw.settled
  pending j db renames h := hw.pending j db renames (Option.filter_eq_some_iff.mp h).1

theorem Settled.retire {marker : Option ImportStatus} (h : Settled loads file w marker) :
    Settled loads file w.retire marker := by
  intro hmarker content hcontent
  rcases h hmarker content hcontent with ⟨hparsed, himported, hfile⟩ | ⟨hparsed, hnone, hcorrupt⟩
  · refine .inl ⟨hparsed, himported, .inr ?_⟩
    rcases hfile with hfile | hretired
    · refine List.mem_append_right _ ?_
      rw [hfile]
      exact List.mem_singleton_self content
    · exact List.mem_append_left _ hretired
  · exact .inr ⟨hparsed, rfl, hcorrupt⟩

theorem Inv.retire (hw : Inv loads P file w) (hmarker : w.db.marker ≠ none) :
    Inv loads P file w.retire where
  unmarked h := absurd h hmarker
  opened h := absurd h hmarker
  counted := hw.counted
  settled := hw.settled.retire
  pending i db renames h := by
    obtain ⟨hdb, hcounted, hsettled⟩ := hw.pending i db renames h
    exact ⟨hdb, hcounted, hsettled.retire⟩

/-- A transaction of an import that has nothing to commit yet. -/
theorem Inv.waiting (hw : Inv loads P file w) (i : ℕ) :
    Inv loads P file { w with txn := some (i, none) } where
  unmarked := hw.unmarked
  opened := hw.opened
  counted := hw.counted
  settled := hw.settled
  pending _ _ _ h := by cases h

theorem Inv.work (hw : Inv loads P file w) (i : ℕ) :
    Inv loads P file (work loads P caps i w) := by
  unfold Affordance.work
  split
  · rename_i status hstatus
    have hmarker : w.db.marker ≠ none := Option.ne_none_iff_exists'.mpr ⟨status, hstatus⟩
    refine ⟨hw.unmarked, hw.opened, hw.counted, hw.settled, fun j db renames h => ?_⟩
    cases h
    exact ⟨hmarker, hw.counted, hw.settled⟩
  · rename_i hmarker
    obtain ⟨hrows, hlog, hfile⟩ := hw.unmarked hmarker
    split
    · exact hw.abandon i
    · rename_i status rows himport
      rw [hrows] at himport
      obtain ⟨hstatus, hvalue⟩ := importLegacy_eq_ok himport
      -- A file that was set aside by an import that did not commit counts for nothing.
      have hlegacy (k : Counter) : legacyValue loads P w.file k = legacyValue loads P file k := by
        rcases hfile with heq | ⟨hnone, content, hcontent, hparsed, -⟩
        · rw [heq]
        · rw [hnone, hcontent, legacyValue_of_corrupt hparsed]
      have hcounted : Counted loads P file ⟨some status, rows⟩ w.log := by
        intro _ k
        rw [hlog, marks, List.filterMap_nil, total_nil, ← hlegacy]
        exact hvalue k
      have hset : ∀ content, w.file = some content → w.file = file := by
        intro content hcontent
        rcases hfile with heq | ⟨hnone, -⟩
        · exact heq
        · cases hnone.symm.trans hcontent
      rcases hstatus with ⟨hnone, rfl⟩ | ⟨⟨content, hcontent, hparsed⟩, rfl⟩ |
        ⟨⟨content, agg, hcontent, hparsed⟩, rfl⟩
      · have hsettled : Settled loads file w (some .noFile) := by
          intro _ content hcontent
          rcases hfile with heq | ⟨-, content', hcontent', hparsed, hmem⟩
          · cases hcontent.symm.trans (heq.symm.trans hnone)
          · cases hcontent.symm.trans hcontent'
            exact .inr ⟨hparsed, hnone, hmem⟩
        refine ⟨hw.unmarked, hw.opened, hw.counted, hw.settled, fun j db renames h => ?_⟩
        cases h
        exact ⟨Option.some_ne_none _, hcounted, hsettled⟩
      · have horigin : file = some content := (hset content hcontent).symm.trans hcontent
        have hmem : content ∈ w.setAside.corrupt := by
          refine List.mem_append_right _ ?_
          rw [hcontent]
          exact List.mem_singleton_self content
        have hsettled : Settled loads file w.setAside (some .corrupt) := by
          intro _ content' hcontent'
          cases horigin.symm.trans hcontent'
          exact .inr ⟨hparsed, rfl, hmem⟩
        refine ⟨fun _ => ⟨hrows, hlog, .inr ⟨rfl, content, horigin, hparsed, hmem⟩⟩, hw.opened,
          hw.counted, fun h => absurd hmarker h, fun j db renames h => ?_⟩
        cases h
        exact ⟨Option.some_ne_none _, hcounted, hsettled⟩
      · have horigin : file = some content := (hset content hcontent).symm.trans hcontent
        have hsettled : Settled loads file w (some .imported) := by
          intro _ content' hcontent'
          cases horigin.symm.trans hcontent'
          exact .inl ⟨⟨agg, hparsed⟩, rfl, .inl hcontent⟩
        refine ⟨hw.unmarked, hw.opened, hw.counted, hw.settled, fun j db renames h => ?_⟩
        cases h
        exact ⟨Option.some_ne_none _, hcounted, hsettled⟩

theorem Inv.commit (hw : Inv loads P file w) {i : ℕ} {db : Db} {renames : Bool}
    (h : w.txn = some (i, some (db, renames))) :
    Inv loads P file { w.setPhase i (.committed renames) with db, txn := none } := by
  obtain ⟨hmarker, hcounted, hsettled⟩ := hw.pending i db renames h
  exact ⟨fun hnone => absurd hnone hmarker, fun hnone => absurd hnone hmarker, hcounted, hsettled,
    fun j db' renames' h' => by cases h'⟩

/-! ### Records -/

theorem marks_snoc (log : List Record) (r : Record) (k : Counter) :
    marks (log ++ [r]) k = marks log k ++ (r.mark? k).toList := by
  have hlast : [r].filterMap (fun r => r.mark? k) = (r.mark? k).toList := by
    rw [List.filterMap_cons]
    cases r.mark? k <;> rfl
  rw [marks, List.filterMap_append, hlast]
  rfl

/-- Behind a record the counters are right exactly when none that it adds to is at its end. -/
theorem counted_record_iff {db : Db} {log : List Record} {i : ℕ} {r : Record} {rows : Rows}
    (hmarker : db.marker ≠ none) (hcounted : Counted loads P file db log)
    (hcommit : r.commit P (caps i) db.rows = .ok rows) :
    Counted loads P file { db with rows } (log ++ [r]) ↔
      ∀ k n, r.mark? k = some true → (db.rows.value k).numeric P.sql = .integer n →
        n < maxInteger := by
  have hkey (k : Counter) :
      rows.value k = (legacyValue loads P file k).total P.sql (marks (log ++ [r]) k) ↔
        ∀ n, r.mark? k = some true → (db.rows.value k).numeric P.sql = .integer n →
          n < maxInteger := by
    have hold := hcounted hmarker k
    rw [value_commit hcommit, marks_snoc]
    cases r.mark? k with
    | none =>
      rw [Option.toList_none, List.append_nil]
      exact iff_of_true hold fun n h => by cases h
    | some one =>
      rw [Option.toList_some, total_snoc, ← hold, Option.some.injEq]
      exact plus_eq_exactPlus_iff P.sql _ one
  constructor
  · exact fun h k n => (hkey k).mp (h hmarker k) n
  · exact fun h _ k => (hkey k).mpr fun n => h k n

theorem Inv.counts (hw : Inv loads P file w) {r : Record} {rows : Rows}
    (hmarker : w.db.marker ≠ none) (htxn : w.txn = none)
    (hcounted : Counted loads P file { w.db with rows } (w.log ++ [r])) :
    Inv loads P file { w with db := { w.db with rows }, log := w.log ++ [r] } where
  unmarked h := absurd h hmarker
  opened h := absurd h hmarker
  counted := hcounted
  settled := hw.settled
  pending i db renames h := by cases htxn.symm.trans h

theorem record_cases (P : Platform) (caps : ℕ → SampleCap) (i : ℕ) (r : Record)
    (w : World Content) :
    (∃ rows, r.bindable = true ∧ r.commit P (caps i) w.db.rows = .ok rows ∧
      record P caps i r w = { w with db := { w.db with rows }, log := w.log ++ [r] }) ∨
    r.bindable ≠ true ∧ record P caps i r w = w := by
  unfold record
  cases hcommit : r.commit P (caps i) w.db.rows with
  | ok rows => exact .inl ⟨rows, commit_isOk.mp ⟨rows, hcommit⟩, rfl, rfl⟩
  | error e =>
    refine .inr ⟨fun hbindable => ?_, rfl⟩
    obtain ⟨rows, hrows⟩ := commit_isOk.mpr hbindable
    cases hcommit.symm.trans hrows

end Recertia.Affordance
