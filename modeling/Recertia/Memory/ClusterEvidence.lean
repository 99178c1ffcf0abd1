import Recertia.Memory.Clusters

/-! When the clusters on a path have all the evidence noted. -/
namespace Recertia.Clusters

open DistinctCount Transition

section Evidence

def Note.runsOf (notes : List Note) : List String := notes.map Note.runId

def Note.sessionsOf (notes : List Note) : List String := notes.map Note.sessionId

/-- The notes of one cluster. -/
def notesFor (notes : List Note) (taskClass signature : String) : List Note :=
  notes.filter fun n => n.taskClass = taskClass ∧ n.signature = signature

/-- A row has what its notes say: whose they are, and how many runs and sessions are in them. -/
structure Shows (row : FailureClusterRow) (notes : List Note) : Prop where
  cluster : ∀ n ∈ notes, n.taskClass = row.taskClass ∧ n.signature = row.signature
  runs : Counts row.sampleCap row.runs (Note.runsOf notes)
  sessions : Counts row.sampleCap row.sessions (Note.sessionsOf notes)
  eligible : row.eligible = decide (row.minRuns ≤ row.nRuns ∧ row.minSessions ≤ row.nSessions)

theorem Shows.note {row : FailureClusterRow} {notes : List Note} (h : Shows row notes) {n : Note}
    (hcluster : row.taskClass = n.taskClass ∧ row.signature = n.signature) :
    Shows (row.note n.runId n.sessionId n.caseHash n.time) (notes ++ [n]) := by
  refine ⟨fun m hm => ?_, ?_, ?_, rfl⟩
  · rcases List.mem_append.mp hm with hold | hnew
    · exact h.cluster m hold
    · rw [List.mem_singleton.mp hnew]
      exact ⟨hcluster.1.symm, hcluster.2.symm⟩
  · have hruns : Note.runsOf (notes ++ [n]) = Note.runsOf notes ++ [n.runId] := List.map_append
    rw [hruns]
    exact h.runs.add n.runId
  · have hsessions : Note.sessionsOf (notes ++ [n]) = Note.sessionsOf notes ++ [n.sessionId] :=
      List.map_append
    rw [hsessions]
    exact h.sessions.add n.sessionId

theorem Note.newRow_spec {n : Note} {row : FailureClusterRow} (h : n.newRow = some row) :
    Shows row [] ∧ row.taskClass = n.taskClass ∧ row.signature = n.signature := by
  rw [Note.newRow] at h
  split at h
  · rename_i hbounds
    cases h
    refine ⟨⟨fun _ hn => absurd hn List.not_mem_nil, .nil _, .nil _, ?_⟩, rfl, rfl⟩
    have hzero : ¬ (n.minRuns.toNat ≤ 0 ∧ n.minSessions.toNat ≤ 0) := by omega
    exact (decide_eq_false hzero).symm
  · cases h

/-- The rows are those of the notes: one for each key that was noted. -/
def Recorded (rows : Rows) (notes : List Note) : Prop :=
  ∀ key, match rows.get? key with
    | some row => Shows row (notes.filter fun n => n.key = key)
    | none => ∀ n ∈ notes, n.key ≠ key

theorem recorded_nil : Recorded .empty [] := fun _ _ hn => absurd hn List.not_mem_nil

/-- The rows after one more note, which is of the cluster that its key stands for. -/
theorem recorded_noteInto {rows after : Rows} {notes : List Note} {n : Note}
    {updated : FailureClusterRow} (h : Recorded rows notes)
    (hnote : noteInto rows n = some (updated, after))
    (hcluster : ∀ row, rows.get? n.key = some row →
      row.taskClass = n.taskClass ∧ row.signature = n.signature) :
    Recorded after (notes ++ [n]) := by
  obtain ⟨current, hcurrent, heq⟩ := Option.map_eq_some_iff.mp hnote
  simp only [Prod.mk.injEq] at heq
  obtain ⟨rfl, rfl⟩ := heq
  -- The row that is noted has the notes of the key so far.
  have hshows : Shows current (notes.filter fun m => m.key = n.key) ∧
      current.taskClass = n.taskClass ∧ current.signature = n.signature := by
    have hkey := h n.key
    cases hget : rows.get? n.key with
    | some row =>
      rw [hget] at hkey hcurrent
      cases hcurrent
      exact ⟨hkey, hcluster _ hget⟩
    | none =>
      rw [hget] at hkey hcurrent
      have hnone : (notes.filter fun m => m.key = n.key) = [] := by
        apply List.filter_eq_nil_iff.mpr
        intro m hm
        simpa using hkey m hm
      rw [hnone]
      exact Note.newRow_spec hcurrent
  intro key
  rw [Table.get?_upsert, List.filter_append]
  by_cases hkey : key = n.key
  · subst hkey
    have hone : ([n].filter fun m => m.key = n.key) = [n] := by simp
    rw [if_pos rfl, hone]
    have hsame : (((rows.get? n.key).map fun _ => current.note n.runId n.sessionId n.caseHash
        n.time).getD (current.note n.runId n.sessionId n.caseHash n.time)) =
          current.note n.runId n.sessionId n.caseHash n.time := by
      cases rows.get? n.key <;> rfl
    rw [hsame]
    exact hshows.1.note hshows.2
  · have hother : ([n].filter fun m => m.key = key) = [] := by simpa using Ne.symm hkey
    rw [if_neg hkey, hother, List.append_nil]
    have hold := h key
    cases hget : rows.get? key with
    | some row =>
      rw [hget] at hold
      exact hold
    | none =>
      rw [hget] at hold
      intro m hm
      rcases List.mem_append.mp hm with hm | hm
      · exact hold m hm
      · rw [List.mem_singleton.mp hm]
        exact Ne.symm hkey

end Evidence

variable {ι : Type}

section Runs

/-- What a new store on the path sees of a cluster. -/
structure Seen (file : Option Rows) (notes : List Note) (taskClass signature : String)
    (row : FailureClusterRow) : Prop where
  get : ({} : ClusterStore).get file taskClass signature = some row
  cluster : row.taskClass = taskClass ∧ row.signature = signature
  runs : (Note.runsOf (notesFor notes taskClass signature)).toFinset.card ≤ row.sampleCap →
    row.nRuns = (Note.runsOf (notesFor notes taskClass signature)).toFinset.card
  sessions : (Note.sessionsOf (notesFor notes taskClass signature)).toFinset.card ≤ row.sampleCap →
    row.nSessions = (Note.sessionsOf (notesFor notes taskClass signature)).toFinset.card
  eligible : row.eligible = true ↔ row.minRuns ≤ row.nRuns ∧ row.minSessions ≤ row.nSessions
  listed : row ∈ ({} : ClusterStore).eligibleRows file (some taskClass) ↔ row.eligible = true

/-- No call is under way. -/
def World.Quiet (w : World ι) : Prop := ∀ i, (w.stores i).phase = .idle

/-- When all calls have completed, a new store sees every cluster noted, with its evidence. -/
def Complete (w : World ι) : Prop :=
  w.Quiet → ∀ n ∈ w.noted, ∃ row, Seen w.file w.noted n.taskClass n.signature row

/-- A call begins while no other store is in one, with the rows of the file and of its cluster. -/
def Meets (w : World ι) : Label ι → Prop
  | .upsert i n => (∀ j ≠ i, (w.stores j).phase = .idle) ∧
      ((w.stores i).rows = none ∨ (w.stores i).rows = some (w.file.getD .empty)) ∧
      ∀ row, (w.file.getD .empty).get? n.key = some row →
        row.taskClass = n.taskClass ∧ row.signature = n.signature
  | _ => True

/-- The rows with all notes are in the file, or with the one store that is in a call. -/
def Inv (w : World ι) : Prop :=
  ∃ rows, Recorded rows w.noted ∧
    ((w.Quiet ∧ w.file.getD .empty = rows) ∨
      ∃ i, (∀ j ≠ i, (w.stores j).phase = .idle) ∧
        (((w.stores i).phase = .flushing ∧ (w.stores i).rows = some rows) ∨
          ((w.stores i).phase = .written ∧ w.tmp = some rows)))

theorem inv_start : Inv ({} : World ι) := ⟨.empty, recorded_nil, Or.inl ⟨fun _ => rfl, rfl⟩⟩

theorem complete_of_inv {w : World ι} (h : Inv w) : Complete w := by
  intro hquiet n hn
  obtain ⟨rows, hrecorded, ⟨-, hfile⟩ | ⟨i, -, ⟨hphase, -⟩ | ⟨hphase, -⟩⟩⟩ := h
  · have hkey := hrecorded n.key
    cases hget : rows.get? n.key with
    | none =>
      rw [hget] at hkey
      exact absurd rfl (hkey n hn)
    | some row =>
      rw [hget] at hkey
      have hmem : n ∈ w.noted.filter fun m => m.key = n.key := by simpa using hn
      obtain ⟨htask, hsig⟩ := hkey.cluster n hmem
      -- No other cluster has this key.
      have hnotes : (w.noted.filter fun m => m.key = n.key) =
          notesFor w.noted n.taskClass n.signature := by
        apply List.filter_congr
        intro m hm
        rw [decide_eq_decide]
        constructor
        · intro hsame
          have hm' : m ∈ w.noted.filter fun m => m.key = n.key := by simpa using ⟨hm, hsame⟩
          obtain ⟨hmtask, hmsig⟩ := hkey.cluster m hm'
          exact ⟨hmtask.trans htask.symm, hmsig.trans hsig.symm⟩
        · rintro ⟨hmtask, hmsig⟩
          rw [Note.key, Note.key, hmtask, hmsig]
      rw [hnotes] at hkey
      have heligible := hkey.eligible
      refine ⟨row, ?_, ⟨htask.symm, hsig.symm⟩, hkey.runs.count, hkey.sessions.count, ?_, ?_⟩
      · change (w.file.getD .empty).get? n.key = some row
        rw [hfile, hget]
      · rw [heligible, decide_eq_true_eq]
      · change row ∈ (((w.file.getD .empty).rows.map Prod.snd).filter
            FailureClusterRow.eligible).filter (fun row => row.taskClass = n.taskClass) ↔ _
        rw [hfile, List.mem_filter, List.mem_filter, List.mem_map]
        have hrow : (n.key, row) ∈ rows.rows := Table.get?_eq_some.mp hget
        constructor
        · exact fun hlisted => hlisted.1.2
        · exact fun hrow' => ⟨⟨⟨_, hrow, rfl⟩, hrow'⟩, decide_eq_true htask.symm⟩
  · rw [hquiet i] at hphase
    cases hphase
  · rw [hquiet i] at hphase
    cases hphase

variable [DecidableEq ι]

theorem World.set_self (w : World ι) (i : ι) (s : ClusterStore) : (w.set i s).stores i = s :=
  Function.update_self ..

theorem World.set_other (w : World ι) {i j : ι} (s : ClusterStore) (h : j ≠ i) :
    (w.set i s).stores j = w.stores j :=
  Function.update_of_ne h ..

/-- A store whose phase becomes `idle`, with all others idle, leaves none in a call. -/
theorem quiet_set {w : World ι} {i : ι} {s : ClusterStore} (hs : s.phase = .idle)
    (h : ∀ j ≠ i, (w.stores j).phase = .idle) : (w.set i s).Quiet := by
  intro j
  by_cases hj : j = i
  · subst hj
    rw [World.set_self, hs]
  · rw [World.set_other w s hj, h j hj]

/-- A store in a call is the one that the invariant speaks of. -/
theorem Inv.busy {w : World ι} (h : Inv w) {i : ι} (hi : (w.stores i).phase ≠ .idle) :
    ∃ rows, Recorded rows w.noted ∧ (∀ j ≠ i, (w.stores j).phase = .idle) ∧
      (((w.stores i).phase = .flushing ∧ (w.stores i).rows = some rows) ∨
        ((w.stores i).phase = .written ∧ w.tmp = some rows)) := by
  obtain ⟨rows, hrecorded, ⟨hquiet, -⟩ | ⟨k, hothers, hk⟩⟩ := h
  · exact absurd (hquiet i) hi
  · have hsame : k = i := by
      by_contra hne
      exact hi (hothers i (Ne.symm hne))
    subst hsame
    exact ⟨rows, hrecorded, hothers, hk⟩

/-- A store that is idle leaves the rows to the others. -/
theorem inv_set_idle {w : World ι} (h : Inv w) {i : ι} {s : ClusterStore}
    (hi : (w.stores i).phase = .idle) (hs : s.phase = .idle) : Inv (w.set i s) := by
  obtain ⟨rows, hrecorded, ⟨hquiet, hfile⟩ | ⟨k, hothers, hk⟩⟩ := h
  · exact ⟨rows, hrecorded, Or.inl ⟨quiet_set hs fun j _ => hquiet j, hfile⟩⟩
  · have hne : k ≠ i := by
      rintro rfl
      rcases hk with ⟨hphase, -⟩ | ⟨hphase, -⟩ <;> rw [hi] at hphase <;> cases hphase
    refine ⟨rows, hrecorded, Or.inr ⟨k, fun j hj => ?_, ?_⟩⟩
    · by_cases hji : j = i
      · subst hji
        rw [World.set_self, hs]
      · rw [World.set_other w s hji, hothers j hj]
    · rw [World.set_other w s hne]
      exact hk

theorem inv_upsert {w t : World ι} (h : Inv w) {i : ι} {n : Note} (hmeets : Meets w (.upsert i n))
    (hstep : step w (.upsert i n) = some t) : Inv t := by
  obtain ⟨hothers, hcurrent, hcluster⟩ := hmeets
  rw [step] at hstep
  cases hphase : (w.stores i).phase with
  | flushing | written =>
    rw [hphase] at hstep
    cases hstep
  | idle =>
    rw [hphase] at hstep
    -- All are idle, so the file has the rows, and the store begins with these.
    have hquiet : w.Quiet := by
      intro j
      by_cases hj : j = i
      · rw [hj, hphase]
      · exact hothers j hj
    have hload : (w.stores i).load w.file = w.file.getD .empty := by
      rcases hcurrent with hnone | hsome
      · rw [ClusterStore.load, hnone, Option.getD_none]
      · rw [ClusterStore.load, hsome, Option.getD_some]
    dsimp only at hstep
    rw [hload] at hstep
    cases hnote : noteInto (w.file.getD .empty) n with
    | none =>
      rw [hnote] at hstep
      cases hstep
      exact inv_set_idle h hphase rfl
    | some noted =>
      rw [hnote] at hstep
      cases hstep
      obtain ⟨rows, hrecorded, ⟨-, hfile⟩ | ⟨k, -, ⟨hk, -⟩ | ⟨hk, -⟩⟩⟩ := h
      · rw [hfile] at hnote hcluster
        refine ⟨noted.2, recorded_noteInto hrecorded hnote hcluster, Or.inr ⟨i, fun j hj => ?_, ?_⟩⟩
        · change ((w.set i _).stores j).phase = .idle
          rw [World.set_other w _ hj, hothers j hj]
        · refine Or.inl ?_
          change ((w.set i _).stores i).phase = .flushing ∧ ((w.set i _).stores i).rows = _
          rw [World.set_self]
          exact ⟨rfl, rfl⟩
      · rw [hquiet k] at hk
        cases hk
      · rw [hquiet k] at hk
        cases hk

theorem inv_step {w t : World ι} (h : Inv w) {l : Label ι} (hmeets : Meets w l)
    (hstep : step w l = some t) : Inv t := by
  cases l with
  | upsert i n => exact inv_upsert h hmeets hstep
  | look i =>
    rw [step] at hstep
    cases hphase : (w.stores i).phase with
    | flushing | written =>
      rw [hphase] at hstep
      cases hstep
    | idle =>
      rw [hphase] at hstep
      cases hstep
      exact inv_set_idle h hphase rfl
  | writeTmp i =>
    rw [step] at hstep
    cases hphase : (w.stores i).phase with
    | idle | written =>
      rw [hphase] at hstep
      cases hstep
    | flushing =>
      rw [hphase] at hstep
      cases hstep
      obtain ⟨rows, hrecorded, hothers, hi⟩ := h.busy (i := i) (by rw [hphase]; decide)
      rcases hi with ⟨-, hrows⟩ | ⟨hwritten, -⟩
      · refine ⟨rows, hrecorded, Or.inr ⟨i, fun j hj => ?_, Or.inr ⟨?_, hrows⟩⟩⟩
        · change ((w.set i _).stores j).phase = .idle
          rw [World.set_other w _ hj, hothers j hj]
        · change ((w.set i _).stores i).phase = .written
          rw [World.set_self]
      · rw [hphase] at hwritten
        cases hwritten
  | replace i =>
    rw [step] at hstep
    cases hphase : (w.stores i).phase with
    | idle | flushing =>
      rw [hphase] at hstep
      cases hstep
    | written =>
      rw [hphase] at hstep
      obtain ⟨rows, hrecorded, hothers, hi⟩ := h.busy (i := i) (by rw [hphase]; decide)
      rcases hi with ⟨hflushing, -⟩ | ⟨-, htmp⟩
      · rw [hphase] at hflushing
        cases hflushing
      · dsimp only at hstep
        rw [htmp] at hstep
        cases hstep
        exact ⟨rows, hrecorded, Or.inl ⟨quiet_set rfl hothers, rfl⟩⟩

/-- Along a run whose steps all meet the condition no evidence is lost. -/
theorem complete_along (ls : List (Label ι))
    (hmeets : system.Along (fun w l _ => Meets w l) ({} : World ι) ls) :
    system.Along (fun _ _ t => Complete t) ({} : World ι) ls := by
  apply System.along_of_invariant (I := Inv) _ _ inv_start hmeets
  · exact fun w l t hinv hstep hmeets => inv_step hinv hmeets hstep
  · exact fun w l t hinv hstep hmeets => complete_of_inv (inv_step hinv hmeets hstep)

end Runs

section Examples

def timedOut (runId sessionId : String) : Note :=
  { taskClass := "etl", signature := "timeout::slow", runId, sessionId, caseHash := none, time := 0 }

def refused (runId sessionId : String) : Note :=
  { taskClass := "etl", signature := "auth::refused", runId, sessionId, caseHash := none, time := 0 }

def call (i : Bool) (n : Note) : List (Label Bool) := [.upsert i n, .writeTmp i, .replace i]

/-- The guard of a call by a store that has not loaded the file yet. -/
def firstCall (w : World Bool) : Label Bool → Bool
  | .upsert i n => decide (∀ j, j ≠ i → (w.stores j).phase = .idle) && (w.stores i).rows.isNone &&
      ((w.file.getD .empty).get? n.key).all fun row =>
        row.taskClass = n.taskClass ∧ row.signature = n.signature
  | _ => true

theorem meets_of_firstCall {w : World Bool} {l : Label Bool} (h : firstCall w l = true) :
    Meets w l := by
  cases l with
  | upsert i n =>
    rw [firstCall, Bool.and_eq_true, Bool.and_eq_true, decide_eq_true_eq,
      Option.isNone_iff_eq_none] at h
    refine ⟨h.1.1, Or.inl h.1.2, fun row hrow => ?_⟩
    have hall := h.2
    rw [hrow, Option.all_some] at hall
    exact of_decide_eq_true hall
  | writeTmp _ | replace _ | look _ => trivial

theorem complete_along_two_stores : system.Along (fun _ _ t => Complete t) ({} : World Bool)
    (call true (timedOut "run-1" "s-1") ++ call false (timedOut "run-2" "s-1") ++
      [.look true]) := by
  apply complete_along
  have hcheck : system.check firstCall ({} : World Bool)
      (call true (timedOut "run-1" "s-1") ++ call false (timedOut "run-2" "s-1") ++
        [.look true]) = true := by decide +kernel
  exact System.along_mono (fun w l t _ h => meets_of_firstCall h) (System.along_of_check hcheck)

/-- Two stores take turns: the second call of the first writes the file without the cluster that
the other has noted meanwhile. -/
theorem not_complete_alternating : ¬ ∀ ls : List (Label Bool),
    system.Along (fun _ _ t => Complete t) ({} : World Bool) ls := by
  intro h
  have halong := h (call true (timedOut "run-1" "s-1") ++ call false (refused "run-2" "s-2") ++
    call true (timedOut "run-3" "s-3"))
  have hcomplete := ((halong _ rfl).2 _ rfl |>.2 _ rfl |>.2 _ rfl |>.2 _ rfl |>.2 _ rfl
    |>.2 _ rfl |>.2 _ rfl |>.2 _ rfl).1
  have hnoted : refused "run-2" "s-2" ∈
      [timedOut "run-1" "s-1", refused "run-2" "s-2", timedOut "run-3" "s-3"] :=
    List.mem_cons_of_mem _ List.mem_cons_self
  obtain ⟨row, hseen⟩ := hcomplete (fun j => by cases j <;> rfl) _ hnoted
  have hget : (ClusterStore.get {} _ "etl" "auth::refused").isSome = true :=
    congrArg Option.isSome hseen.get
  exact absurd hget (by decide +kernel)

end Examples

end Recertia.Clusters
