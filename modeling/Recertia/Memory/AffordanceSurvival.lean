import Recertia.Memory.AffordanceRuns

/-! Which runs the counters survive with a legacy file in the runs root. -/
namespace Recertia.Affordance

open Sql Fallible
open Json (LoadError)

variable {Content : Type*} {loads : Content → Except LoadError JsonValue} {P : Platform}
  {caps : ℕ → SampleCap} {file : Option Content} {w : World Content}

/-! ### One step -/

variable (loads P caps w) in
/-- What a step can do. -/
inductive Moves : Label → World Content → Prop
  | locked {i : ℕ} (hphase : w.phase i = .closed) (htxn : w.txn = none) :
      Moves (.lock i) { w.setPhase i .importing with txn := some (i, none) }
  | worked {i : ℕ} (htxn : w.txn = some (i, none)) : Moves (.work i) (work loads P caps i w)
  | committed {i : ℕ} {db : Db} {renames : Bool} (htxn : w.txn = some (i, some (db, renames))) :
      Moves (.commit i) { w.setPhase i (.committed renames) with db, txn := none }
  | renamed {i : ℕ} {fails renames : Bool} (hphase : w.phase i = .committed renames) :
      Moves (.rename i fails) ((if renames && !fails then w.retire else w).setPhase i .ready)
  | recorded {i : ℕ} {r : Record} (hphase : w.phase i = .ready) (htxn : w.txn = none) :
      Moves (.record i r) (record P caps i r w)
  | failed {i : ℕ} (hphase : w.phase i = .importing) : Moves (.fault i) (w.abandon i)
  | kept {i : ℕ} (hphase : w.phase i ≠ .importing) : Moves (.fault i) w
  | crashed {i : ℕ} : Moves (.crash i) (w.abandon i)
  | closed {i : ℕ} (hphase : w.phase i = .ready) : Moves (.close i) (w.setPhase i .closed)

theorem moves_of_step {l : Label} {t : World Content} (h : step loads P caps w l = some t) :
    Moves loads P caps w l t := by
  cases l with
  | lock i =>
    simp only [step] at h
    split at h
    · rename_i hphase htxn
      obtain rfl := Option.some.inj h
      exact .locked hphase htxn
    · cases h
  | work i =>
    simp only [step] at h
    split at h
    · rename_i j htxn
      split at h
      · rename_i hj
        obtain rfl := Option.some.inj h
        exact .worked (hj ▸ htxn)
      · cases h
    · cases h
  | commit i =>
    simp only [step] at h
    split at h
    · rename_i j db renames htxn
      split at h
      · rename_i hj
        obtain rfl := Option.some.inj h
        exact .committed (hj ▸ htxn)
      · cases h
    · cases h
  | rename i fails =>
    simp only [step] at h
    split at h
    · rename_i renames hphase
      obtain rfl := Option.some.inj h
      exact .renamed hphase
    · cases h
  | record i r =>
    simp only [step] at h
    split at h
    · rename_i hphase htxn
      obtain rfl := Option.some.inj h
      exact .recorded hphase htxn
    · cases h
  | fault i =>
    obtain rfl := Option.some.inj h
    split
    · rename_i hphase
      exact .failed hphase
    · rename_i hphase
      exact .kept hphase
  | crash i =>
    obtain rfl := Option.some.inj h
    exact .crashed
  | close i =>
    simp only [step] at h
    split at h
    · rename_i hphase
      obtain rfl := Option.some.inj h
      exact .closed hphase
    · cases h

/-- An instance behind its import has committed the marker. -/
theorem Inv.marked (hw : Inv loads P file w) {i : ℕ} {phase : Phase} (hphase : w.phase i = phase)
    (hclosed : phase ≠ .closed) (himporting : phase ≠ .importing) : w.db.marker ≠ none := by
  intro hmarker
  rcases hw.opened hmarker i with heq | heq
  · exact hclosed (hphase.symm.trans heq)
  · exact himporting (hphase.symm.trans heq)

theorem Inv.step (hw : Inv loads P file w) {l : Label} {t : World Content}
    (h : step loads P caps w l = some t) (hadmissible : Admissible loads P caps w l) :
    Inv loads P file t := by
  cases moves_of_step h with
  | @locked i => exact (hw.setPhase fun _ => .inr rfl).waiting i
  | @worked i => exact hw.work i
  | committed htxn => exact hw.commit htxn
  | renamed hphase =>
    have hmarker := hw.marked hphase (fun h => by cases h) (fun h => by cases h)
    split
    · exact (hw.retire hmarker).setPhase fun h => absurd h hmarker
    · exact hw.setPhase fun h => absurd h hmarker
  | @recorded i r hphase htxn =>
    have hmarker := hw.marked hphase (fun h => by cases h) (fun h => by cases h)
    rcases record_cases P caps i r w with ⟨rows, hbindable, hcommit, heq⟩ | ⟨-, heq⟩
    · rw [heq]
      apply hw.counts hmarker htxn
      exact (counted_record_iff hmarker hw.counted hcommit).mpr fun k n hmark hvalue =>
        hadmissible.fits i r k n rfl hbindable hmark hvalue
    · rw [heq]
      exact hw
  | @failed i | @crashed i => exact hw.abandon i
  | kept => exact hw
  | closed => exact hw.setPhase fun _ => .inl rfl

theorem log_work (i : ℕ) (w : World Content) : (work loads P caps i w).log = w.log := by
  unfold work
  split
  · rfl
  · split
    · rfl
    · dsimp only
      split <;> rfl

/-- The work of an import leaves something to commit exactly when there is a marker or a file that
it accepts. -/
theorem work_done_iff (hrows : w.db.marker = none → w.db.rows = {}) (i : ℕ) :
    (∃ db renames, (work loads P caps i w).txn = some (i, some (db, renames))) ↔
    (w.db.marker = none → ∀ content, w.file = some content →
      Accepted loads P (caps i) content) := by
  unfold work
  cases hmarker : w.db.marker with
  | some status => exact iff_of_true ⟨_, _, rfl⟩ fun h => by cases h
  | none =>
    rw [hrows hmarker, ← importLegacy_isOk]
    cases himport : importLegacy loads P (caps i) w.file {} with
    | error e =>
      refine iff_of_false ?_ fun h => ?_
      · rintro ⟨db, renames, htxn⟩
        have howner : i ≠ i := of_decide_eq_true (Option.filter_eq_some_iff.mp htxn).2
        exact howner rfl
      · obtain ⟨x, hx⟩ := h rfl
        cases hx
    | ok x => exact iff_of_true ⟨_, _, rfl⟩ fun _ => ⟨x, rfl⟩

/-- A call behind the work of its import goes on to commit its record. -/
theorem call_commits {i : ℕ} {r : Record} {db : Db} {renames : Bool}
    (htxn : w.txn = some (i, some (db, renames))) (hbindable : r.bindable = true) (fails : Bool) :
    ∃ u, (system loads P caps).run w [.commit i, .rename i fails, .record i r] = some u ∧
      u.log = w.log ++ [r] := by
  let committed : World Content := { w.setPhase i (.committed renames) with db, txn := none }
  let renamed := (if renames && !fails then committed.retire else committed).setPhase i .ready
  have hcommit : step loads P caps w (.commit i) = some committed := by
    simp only [step, htxn, if_pos]
    rfl
  have hphase : committed.phase i = .committed renames := if_pos rfl
  have hrename : step loads P caps committed (.rename i fails) = some renamed := by
    simp only [step, hphase]
    rfl
  have hready : renamed.phase i = .ready := if_pos rfl
  have hfree : renamed.txn = none ∧ renamed.log = w.log := by
    dsimp only [renamed]
    split <;> exact ⟨rfl, rfl⟩
  have hrecord : step loads P caps renamed (.record i r) = some (record P caps i r renamed) := by
    simp only [step, hready, hfree.1]
  refine ⟨record P caps i r renamed, ?_, ?_⟩
  · exact Transition.System.run_cons.mpr ⟨_, hcommit, Transition.System.run_cons.mpr
      ⟨_, hrename, Transition.System.run_cons.mpr ⟨_, hrecord, rfl⟩⟩⟩
  · rcases record_cases P caps i r renamed with ⟨rows, -, -, heq⟩ | ⟨hnot, -⟩
    · rw [heq, ← hfree.2]
    · exact absurd hbindable hnot

/-- A call that has the lock goes on to commit its record exactly when its import can commit. -/
theorem call_commits_iff {i : ℕ} {r : Record} (hrows : w.db.marker = none → w.db.rows = {})
    (htxn : w.txn = some (i, none)) (hbindable : r.bindable = true) (fails : Bool) :
    (∃ u, (system loads P caps).run w [.work i, .commit i, .rename i fails, .record i r] = some u ∧
      u.log = w.log ++ [r]) ↔
    (w.db.marker = none → ∀ content, w.file = some content →
      Accepted loads P (caps i) content) := by
  have hwork : step loads P caps w (.work i) = some (work loads P caps i w) := by
    simp only [step, htxn, if_pos]
  rw [← work_done_iff hrows i]
  constructor
  · rintro ⟨u, hu, -⟩
    obtain ⟨v, hv, hrest⟩ := Transition.System.run_cons.mp hu
    cases hwork.symm.trans hv
    obtain ⟨v, hv, -⟩ := Transition.System.run_cons.mp hrest
    have hcommit : step loads P caps (work loads P caps i w) (.commit i) = some v := hv
    cases moves_of_step hcommit with
    | committed hdone => exact ⟨_, _, hdone⟩
  · rintro ⟨db, renames, hdone⟩
    have hrest : ∃ u, (system loads P caps).run (work loads P caps i w)
        [.commit i, .rename i fails, .record i r] = some u ∧
          u.log = (work loads P caps i w).log ++ [r] := call_commits hdone hbindable fails
    obtain ⟨u, hu, hlog⟩ := hrest
    refine ⟨u, Transition.System.run_cons.mpr ⟨_, hwork, hu⟩, ?_⟩
    rw [hlog, log_work]

/-! ### Runs -/

/-- Where the invariant holds, a step survives the legacy file exactly when it is admissible. -/
theorem survives_iff (hw : Inv loads P file w) {l : Label} {t : World Content}
    (h : step loads P caps w l = some t) :
    Survives loads P caps file w l t ↔ Admissible loads P caps w l := by
  have hrows : w.db.marker = none → w.db.rows = {} := fun hmarker => (hw.unmarked hmarker).1
  have hlock {i : ℕ} (hl : l = .lock i) :
      t.txn = some (i, none) ∧ t.db = w.db ∧ t.file = w.file := by
    subst hl
    cases moves_of_step h with
    | locked => exact ⟨rfl, rfl, rfl⟩
  have hrecord {i : ℕ} {r : Record} (hl : l = .record i r) : t = record P caps i r w ∧
      w.db.marker ≠ none := by
    subst hl
    cases moves_of_step h with
    | recorded hphase =>
      exact ⟨rfl, hw.marked hphase (fun h => by cases h) (fun h => by cases h)⟩
  constructor
  · intro hsurvives
    constructor
    · intro i content hl hmarker hcontent
      let r : Record := .conflict ⟨[], [], 0, false⟩
      have hbindable : r.bindable = true := by decide
      obtain ⟨htxn, hdb, hfile⟩ := hlock hl
      have hopens := hsurvives.opens i r false hl hbindable
      have haccepted := (call_commits_iff (hdb ▸ hrows) htxn hbindable false).mp hopens
      rw [hdb, hfile] at haccepted
      exact haccepted hmarker content hcontent
    · intro i r k n hl hbindable hmark hvalue
      obtain ⟨ht, hmarker⟩ := hrecord hl
      subst ht
      have hcounted := hsurvives.counted
      rcases record_cases P caps i r w with ⟨rows, -, hcommit, heq⟩ | ⟨hnot, -⟩
      · rw [heq] at hcounted
        exact (counted_record_iff hmarker hw.counted hcommit).mp hcounted k n hmark hvalue
      · exact absurd hbindable hnot
  · intro hadmissible
    have ht : Inv loads P file t := hw.step h hadmissible
    refine ⟨fun i r fails hl hbindable => ?_, fun i r hl hbindable => ?_, ht.counted, ht.settled⟩
    · obtain ⟨htxn, hdb, hfile⟩ := hlock hl
      apply (call_commits_iff (hdb ▸ hrows) htxn hbindable fails).mpr
      rw [hdb, hfile]
      exact fun hmarker content hcontent => hadmissible.accepted i content hl hmarker hcontent
    · obtain ⟨ht, -⟩ := hrecord hl
      subst ht
      rcases record_cases P caps i r w with ⟨rows, -, -, heq⟩ | ⟨hnot, -⟩
      · rw [heq]
      · exact absurd hbindable hnot

/-- In a run from any legacy file, the counters survive it along the steps exactly as far as these
are admissible. -/
theorem counters_survive_iff (loads : Content → Except LoadError JsonValue) (P : Platform)
    (caps : ℕ → SampleCap) (file : Option Content) (ls : List Label) :
    (system loads P caps).Along (Survives loads P caps file) (start file) ls ↔
      (system loads P caps).Along (fun w l _ => Admissible loads P caps w l) (start file) ls :=
  Transition.System.along_iff_of_invariant (I := Inv loads P file)
    (fun _ _ _ hw h hadmissible => hw.step h hadmissible) (fun _ _ _ hw h => survives_iff hw h)
    (Inv.start file) ls

/-- `{"tools": {"t": {"tool": "t", "invocations": 5}}}` -/
def fiveInvocations : JsonValue :=
  .object [(str "tools", .object [(str "t", .object [(str "tool", .str (str "t")),
    (str "invocations", .int 5)])])]

/-- Files by the values that their texts load to. -/
def loadsValue (value : JsonValue) : Except LoadError JsonValue := .ok value

/-- A platform for values without floats and texts. -/
def integers : Platform where
  sql := ⟨.real, .text, fun _ => .integer 0, .real, fun _ _ => true⟩
  sortedByCount items := items
  sorted_perm := List.Perm.refl

def defaultCap (_ : ℕ) : SampleCap := ⟨200, by decide, by decide⟩

-- A crash before the commit of an import and one behind it, and a record of another instance.
example : ((system loadsValue integers defaultCap).run (start (some fiveInvocations))
    [.lock 0, .work 0, .crash 0, .lock 1, .work 1, .commit 1, .crash 1, .lock 2, .work 2, .commit 2,
      .rename 2 false, .record 2 (.tool ⟨str "t", true, .one, .one, none⟩)]).map
        (fun w => (w.db.rows.value (.invocations (str "t")), w.file.isSome)) =
    some (.ofInt 6, false) := by
  decide +kernel

/-! ### A file that is refused -/

/-- A file that no instance takes or sets aside stays where it is, and no record is committed. -/
structure Refused (content : Content) (w : World Content) : Prop where
  file : w.file = some content
  db : w.db = {}
  log : w.log = []
  txn : ∀ i done, w.txn ≠ some (i, some done)
  phase : ∀ i, w.phase i = .closed ∨ w.phase i = .importing

theorem Refused.abandon {content : Content} (hw : Refused content w) (i : ℕ) :
    Refused content (w.abandon i) where
  file := hw.file
  db := hw.db
  log := hw.log
  txn j done h := hw.txn j done (Option.filter_eq_some_iff.mp h).1
  phase j := by
    by_cases hj : j = i
    · exact .inl (if_pos hj)
    · simp only [World.abandon, World.setPhase, if_neg hj]
      exact hw.phase j

theorem Refused.work {content : Content} (hw : Refused content w) {i : ℕ}
    (hrefused : ¬ Accepted loads P (caps i) content) :
    Refused content (work loads P caps i w) := by
  unfold Affordance.work
  rw [hw.db, hw.file]
  dsimp only
  cases himport : importLegacy loads P (caps i) (some content) {} with
  | error e => exact hw.abandon i
  | ok x => exact absurd (importLegacy_isOk.mp ⟨x, himport⟩ content rfl) hrefused

theorem Refused.phase_eq {content : Content} (hw : Refused content w) {i : ℕ} {phase : Phase}
    (hphase : w.phase i = phase) : phase = .closed ∨ phase = .importing := by
  rw [← hphase]
  exact hw.phase i

theorem Refused.step {content : Content} (hrefused : ∀ i, ¬ Accepted loads P (caps i) content)
    (hw : Refused content w) {l : Label} {t : World Content}
    (h : step loads P caps w l = some t) : Refused content t := by
  cases moves_of_step h with
  | @locked i =>
    refine ⟨hw.file, hw.db, hw.log, fun j done h => (by cases h), fun j => ?_⟩
    by_cases hj : j = i
    · exact .inr (if_pos hj)
    · simp only [World.setPhase, if_neg hj]
      exact hw.phase j
  | worked => exact hw.work (hrefused _)
  | committed htxn => exact absurd htxn (hw.txn _ _)
  -- Without a marker, no instance is behind its import.
  | renamed hphase | recorded hphase | closed hphase =>
    rcases hw.phase_eq hphase with heq | heq <;> cases heq
  | @failed i | @crashed i => exact hw.abandon i
  | kept => exact hw

/-- A legacy file that is refused makes every record fail. -/
theorem log_eq_nil_of_refused {content : Content}
    (hrefused : ∀ i, ¬ Accepted loads P (caps i) content) {ls : List Label} {t : World Content}
    (h : (system loads P caps).run (start (some content)) ls = some t) : t.log = [] := by
  have hstart : Refused content (start (some content)) :=
    ⟨rfl, rfl, rfl, fun _ _ h => (by cases h), fun _ => .inl rfl⟩
  have hend : Refused content t :=
    Transition.System.run_invariant (fun _ _ _ hw hstep => hw.step hrefused hstep) hstart h
  exact hend.log

/-! ### A tool without a count -/

/-- `{"tools": {"t": {"tool": "t", "invocations": null}}}` -/
def nullInvocations : JsonValue :=
  .object [(str "tools", .object [(str "t", .object [(str "tool", .str (str "t")),
    (str "invocations", .null)])])]

theorem nullInvocations_refused (i : ℕ) :
    ¬ Accepted loadsValue integers (defaultCap i) nullInvocations := by
  rintro ⟨parsed, hparsed, hstorable⟩
  have hparse : parseLegacy loadsValue nullInvocations = .ok (some
      ⟨dictOf [(str "t", { tool := .str (str "t"), invocations := .null })], .empty⟩) := rfl
  cases hparse.symm.trans hparsed
  have htool := (hstorable _ rfl).1 _ (List.mem_singleton_self _)
  exact absurd htool.invocations (by decide)

/-- With such a file the first record call fails, and so does every one behind it. -/
theorem nullInvocations_fails :
    ¬ (system loadsValue integers defaultCap).Along
        (Survives loadsValue integers defaultCap (some nullInvocations))
        (start (some nullInvocations)) [.lock 0] ∧
      ∀ ls w, (system loadsValue integers defaultCap).run (start (some nullInvocations)) ls =
        some w → w.log = [] := by
  refine ⟨fun h => ?_, fun ls w => log_eq_nil_of_refused nullInvocations_refused⟩
  obtain ⟨t, ht⟩ : ∃ t, (system loadsValue integers defaultCap).step (start (some nullInvocations))
      (.lock 0) = some t := ⟨_, rfl⟩
  obtain ⟨hsurvives, -⟩ := h t ht
  obtain ⟨u, hu, hlog⟩ := hsurvives.opens 0 (.conflict ⟨[], [], 0, false⟩) false rfl (by decide)
  have hrun := Transition.System.run_cons.mpr ⟨t, ht, hu⟩
  rw [log_eq_nil_of_refused nullInvocations_refused hrun] at hlog
  exact List.append_ne_nil_of_right_ne_nil t.log (List.cons_ne_nil _ _) hlog.symm

end Recertia.Affordance
