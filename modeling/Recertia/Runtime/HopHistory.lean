import Recertia.Runtime.HopLoop

/-! All or nothing for every hop, and a history without gaps, over whole runs. -/
namespace Recertia.Runtime

open Graph (RunState RouteEntry)
open Transition
variable {P : Type*}

/-- What a step can do. -/
inductive Moves (w : World P) : Label P → World P → Prop
  | refused {e : EngineId} {tenant : TenantId} {run : RunId} {state : RunState}
      (hphase : w.phase e = .idle) (htaken : (w.db.latestSeq run).isNone = false) :
      Moves w (.start e tenant run state) w
  | started {e : EngineId} {tenant : TenantId} {run : RunId} {state : RunState}
      (hphase : w.phase e = .idle) (hfree : (w.db.latestSeq run).isNone = true) :
      Moves w (.start e tenant run state) (setPhase w e (.starting tenant run state))
  | entered {e : EngineId} {tenant : TenantId} {run : RunId} {state : RunState}
      (hphase : w.phase e = .starting tenant run state) :
      Moves w (.enter e) (setPhase w e
        (.ready { tenant, run, state, node := "intake", nextSeq := nextSeq w.db run }))
  | resumed {e : EngineId} {tenant : TenantId} {run : RunId} {synced : Bool}
      (hphase : w.phase e = .idle) :
      Moves w (.resume e tenant run synced)
        (setPhase (syncProjection w tenant run synced) e (resumed w.db tenant run))
  | hopped {e : EngineId} {loop : Loop} {result : HopResult P} (hphase : w.phase e = .ready loop) :
      Moves w (.hop e result) (setPhase w e (.saving (hopArgs w loop result)))
  | fenced {e : EngineId} {a : HopArgs P} (hphase : w.phase e = .saving a) :
      Moves w (.begin e false) (setPhase w e .idle)
  | begun {e : EngineId} {a : HopArgs P} (hphase : w.phase e = .saving a)
      (hfree : w.writer = none) :
      Moves w (.begin e true)
        (setPhase { w with writer := some e } e (.writing a statements w.db))
  | wrote {e : EngineId} {a : HopArgs P} {st : Statement} {rest : List Statement}
      {work work' : Database P} (hphase : w.phase e = .writing a (st :: rest) work)
      (hst : st.exec a work = some work') :
      Moves w (.statement e) (setPhase w e (.writing a rest work'))
  | failed {e : EngineId} {a : HopArgs P} {st : Statement} {rest : List Statement}
      {work : Database P} (hphase : w.phase e = .writing a (st :: rest) work)
      (hst : st.exec a work = none) :
      Moves w (.statement e) (setPhase (unlock w e) e .idle)
  | committed {e : EngineId} {a : HopArgs P} {work : Database P}
      (hphase : w.phase e = .writing a [] work) :
      Moves w (.commit e) (setPhase (unlock { w with db := work } e) e (.committed a))
  | finished {e : EngineId} {a : HopArgs P} {synced : Bool} (hphase : w.phase e = .committed a) :
      Moves w (.finish e synced)
        (setPhase (syncProjection w a.tenant a.run synced) e (nextTurn a))
  | paused {e : EngineId} {loop : Loop} (hphase : w.phase e = .ready loop) :
      Moves w (.pause e) (setPhase w e .idle)
  | crashed {e : EngineId} : Moves w (.crash e) (setPhase (unlock w e) e .idle)

theorem moves_of_step {w w' : World P} {l : Label P} (h : (system P).step w l = some w') :
    Moves w l w' := by
  cases l with
  | start e tenant run state =>
    simp only [system, step] at h
    split at h
    · rename_i hphase
      split at h
      · rename_i hfree
        obtain rfl := Option.some.inj h
        exact .started hphase hfree
      · rename_i htaken
        obtain rfl := Option.some.inj h
        exact .refused hphase (Bool.eq_false_iff.mpr htaken)
    · cases h
  | enter e =>
    simp only [system, step] at h
    split at h
    · rename_i tenant run state hphase
      obtain rfl := Option.some.inj h
      exact .entered hphase
    · cases h
  | resume e tenant run synced =>
    simp only [system, step] at h
    split at h
    · rename_i hphase
      obtain rfl := Option.some.inj h
      exact .resumed hphase
    · cases h
  | hop e result =>
    simp only [system, step] at h
    split at h
    · rename_i loop hphase
      obtain rfl := Option.some.inj h
      exact .hopped hphase
    · cases h
  | begin e fenceOk =>
    simp only [system, step] at h
    split at h
    · rename_i a hphase
      cases fenceOk with
      | false =>
        obtain rfl := Option.some.inj h
        exact .fenced hphase
      | true =>
        simp only [if_true] at h
        split at h
        · rename_i hfree
          obtain rfl := Option.some.inj h
          exact .begun hphase hfree
        · cases h
    · cases h
  | statement e =>
    simp only [system, step] at h
    split at h
    · rename_i a st rest work hphase
      split at h
      · rename_i work' hst
        obtain rfl := Option.some.inj h
        exact .wrote hphase hst
      · rename_i hst
        obtain rfl := Option.some.inj h
        exact .failed hphase hst
    · cases h
  | commit e =>
    simp only [system, step] at h
    split at h
    · rename_i a work hphase
      obtain rfl := Option.some.inj h
      exact .committed hphase
    · cases h
  | finish e synced =>
    simp only [system, step] at h
    split at h
    · rename_i a hphase
      obtain rfl := Option.some.inj h
      exact .finished hphase
    · cases h
  | pause e =>
    simp only [system, step] at h
    split at h
    · rename_i loop hphase
      obtain rfl := Option.some.inj h
      exact .paused hphase
    · cases h
  | crash e =>
    obtain rfl := Option.some.inj h
    exact .crashed

/-- The checkpoint before `seq` exists. -/
def Follows (db : Database P) (run : RunId) (seq : ℕ) : Prop :=
  ∀ n, seq = n + 1 → (run, n) ∈ db.checkpoints.keys

/-- The number of the checkpoint that an orchestrator will write next. -/
def Phase.next : Phase P → Option (RunId × ℕ)
  | .idle => none
  | .starting _ _ _ => none
  | .ready loop => some (loop.run, loop.nextSeq)
  | .saving a => some (a.run, a.seq)
  | .writing a _ _ => some (a.run, a.seq)
  | .committed a => some (a.run, a.seq + 1)

def GapFree (db : Database P) (run : RunId) : Prop :=
  ∀ n, (run, n + 1) ∈ db.checkpoints.keys → (run, n) ∈ db.checkpoints.keys

structure Inv (w : World P) : Prop where
  consistent : Consistent w.db
  follows : ∀ e run seq, (w.phase e).next = some (run, seq) → Follows w.db run seq
  writing : ∀ e a remaining work, w.phase e = .writing a remaining work → w.writer = some e ∧
    ∃ done, statements = done ++ remaining ∧ execAll a done w.db = some work

theorem follows_mono {db db' : Database P} (h : Extends db db') {run : RunId} {seq : ℕ}
    (hf : Follows db run seq) : Follows db' run seq :=
  fun n hn => mem_keys_of_subset h.checkpoints (hf n hn)

theorem execAll_append (a : HopArgs P) (done rest : List Statement) (db : Database P) :
    execAll a (done ++ rest) db = (execAll a done db).bind (execAll a rest) := by
  induction done generalizing db with
  | nil => rfl
  | cons st done ih =>
    simp only [List.cons_append, execAll]
    cases st.exec a db with
    | none => rfl
    | some db' => exact ih db'

theorem inv_init (l : Legacy P) : Inv l.world := by
  refine ⟨⟨?_, ?_, ?_, ?_⟩, ?_, ?_⟩
  · exact fun row hrow => (List.not_mem_nil hrow).elim
  · exact fun row hrow => (List.not_mem_nil hrow).elim
  · exact fun key hkey => (List.not_mem_nil hkey).elim
  · exact fun tenant run => List.Pairwise.nil
  · intro e run seq h
    cases h
  · intro e a remaining work h
    cases h

/-- One orchestrator moves on and the database stays. -/
theorem inv_moved {w w' : World P} {e : EngineId} {p : Phase P} (hi : Inv w)
    (hdb : w'.db = w.db) (hphase : w'.phase = Function.update w.phase e p)
    (hnext : ∀ run seq, p.next = some (run, seq) → Follows w.db run seq)
    (hwriting : ∀ a remaining work, p = .writing a remaining work → w'.writer = some e ∧
      ∃ done, statements = done ++ remaining ∧ execAll a done w.db = some work)
    (hwriter : ∀ d, d ≠ e → w.writer = some d → w'.writer = some d) : Inv w' := by
  refine ⟨hdb ▸ hi.consistent, fun d run seq hd => ?_, fun d a remaining work hd => ?_⟩
  · rw [hdb]
    rw [hphase] at hd
    by_cases hde : d = e
    · rw [hde, Function.update_self] at hd
      exact hnext run seq hd
    · rw [Function.update_of_ne hde] at hd
      exact hi.follows d run seq hd
  · rw [hdb]
    rw [hphase] at hd
    by_cases hde : d = e
    · rw [hde, Function.update_self] at hd
      rw [hde]
      exact hwriting a remaining work hd
    · rw [Function.update_of_ne hde] at hd
      obtain ⟨hw, hdone⟩ := hi.writing d a remaining work hd
      exact ⟨hwriter d hde hw, hdone⟩

theorem not_writing_of_next_none {p : Phase P} (h : p.next = none) (a : HopArgs P)
    (remaining : List Statement) (work : Database P) : p ≠ .writing a remaining work := by
  intro hp
  rw [hp] at h
  cases h

/-- An orchestrator that stops. -/
theorem inv_stopped {w w' : World P} {e : EngineId} {p : Phase P} (hi : Inv w)
    (hdb : w'.db = w.db) (hphase : w'.phase = Function.update w.phase e p) (hp : p.next = none)
    (hwriter : ∀ d, d ≠ e → w.writer = some d → w'.writer = some d) : Inv w' := by
  refine inv_moved hi hdb hphase (fun run seq hnext => ?_) (fun a remaining work hw => ?_) hwriter
  · rw [hp] at hnext
    cases hnext
  · exact absurd hw (not_writing_of_next_none hp a remaining work)

theorem writer_unlock {w : World P} {d e : EngineId} (hde : d ≠ e) (h : w.writer = some d) :
    (unlock w e).writer = some d := by
  have hne : w.writer ≠ some e := by
    rw [h]
    exact fun heq => hde (Option.some.inj heq)
  show (if w.writer = some e then none else w.writer) = some d
  rw [if_neg hne, h]

theorem foldr_some_mem {A B : Type*} {f : A → Option B → Option B} {g : A → B}
    (hf : ∀ a best b, f a best = some b → b = g a ∨ best = some b) {rows : List A} {b : B}
    (h : rows.foldr f none = some b) : ∃ a ∈ rows, b = g a := by
  induction rows with
  | nil => cases h
  | cons a rows ih =>
    rw [List.foldr_cons] at h
    rcases hf a _ b h with heq | hbest
    · exact ⟨a, List.mem_cons_self, heq⟩
    · obtain ⟨a', ha', heq⟩ := ih hbest
      exact ⟨a', List.mem_cons_of_mem _ ha', heq⟩

theorem latest_mem {db : Database P} {run : RunId} {seq : ℕ} {row : CheckpointRow}
    (h : db.latest run = some (seq, row)) : ((run, seq), row) ∈ db.checkpoints.rows := by
  unfold Database.latest at h
  have hmem := foldr_some_mem (g := fun row => (row.1.2, row.2)) (fun r best b hb => by
    cases best with
    | none => exact Or.inl (Option.some.inj hb).symm
    | some b' =>
      dsimp only at hb
      split at hb
      · exact Or.inl (Option.some.inj hb).symm
      · exact Or.inr hb) h
  obtain ⟨r, hr, heq⟩ := hmem
  obtain ⟨hrow, hrun⟩ := List.mem_filter.mp hr
  have hr' : r = ((run, seq), row) := by
    obtain ⟨⟨run', seq'⟩, row'⟩ := r
    have hrun' : run' = run := of_decide_eq_true hrun
    cases heq
    rw [hrun']
  exact hr' ▸ hrow

theorem follows_nextSeq (db : Database P) (run : RunId) : Follows db run (nextSeq db run) := by
  intro n hn
  unfold nextSeq Database.latestSeq at hn
  cases hlatest : db.latest run with
  | none =>
    rw [hlatest] at hn
    cases hn
  | some best =>
    obtain ⟨seq, row⟩ := best
    rw [hlatest] at hn
    have hseq : seq = n := Nat.succ.inj hn
    exact Table.mem_keys.mpr ⟨row, hseq ▸ latest_mem hlatest⟩

theorem follows_resumed {db : Database P} {tenant : TenantId} {run : RunId} {run' : RunId}
    {seq : ℕ} (h : (resumed db tenant run).next = some (run', seq)) : Follows db run' seq := by
  unfold resumed at h
  split at h
  · cases h
  · rename_i seq' row hlatest
    split at h
    · cases h
    · cases h
      intro n hn
      have hseq : seq' = n := Nat.succ.inj hn
      exact Table.mem_keys.mpr ⟨row, hseq ▸ latest_mem hlatest⟩

theorem resumed_not_writing (db : Database P) (tenant : TenantId) (run : RunId) (a : HopArgs P)
    (remaining : List Statement) (work : Database P) :
    resumed db tenant run ≠ .writing a remaining work := by
  unfold resumed
  split
  · exact fun h => by cases h
  · split
    · exact fun h => by cases h
    · exact fun h => by cases h

@[simp] theorem syncProjection_db (w : World P) (tenant : TenantId) (run : RunId) (b : Bool) :
    (syncProjection w tenant run b).db = w.db := by
  unfold syncProjection
  split <;> rfl

@[simp] theorem syncProjection_phase (w : World P) (tenant : TenantId) (run : RunId) (b : Bool) :
    (syncProjection w tenant run b).phase = w.phase := by
  unfold syncProjection
  split <;> rfl

@[simp] theorem syncProjection_writer (w : World P) (tenant : TenantId) (run : RunId) (b : Bool) :
    (syncProjection w tenant run b).writer = w.writer := by
  unfold syncProjection
  split <;> rfl

theorem setPhase_syncProjection (w : World P) (tenant : TenantId) (run : RunId) (b : Bool)
    (e : EngineId) (p : Phase P) :
    (setPhase (syncProjection w tenant run b) e p).phase = Function.update w.phase e p := by
  simp only [setPhase, syncProjection_phase]

/-- A commit is the end of a hop that its engine was writing. -/
theorem commit_step {w w' : World P} {e : EngineId} (hi : Inv w)
    (h : (system P).step w (.commit e) = some w') : ∃ a work, w.phase e = .writing a [] work ∧
      insertHop a w.db = some w'.db := by
  cases moves_of_step h with
  | committed hphase =>
    rename_i a work
    obtain ⟨-, done, hdone, hwork⟩ := hi.writing e a [] work hphase
    rw [List.append_nil] at hdone
    refine ⟨a, work, hphase, ?_⟩
    rw [insertHop, hdone]
    exact hwork

/-- The one step that changes the database: a commit puts the whole hop into it. -/
def Committed (w w' : World P) (l : Label P) : Prop :=
  ∃ e a, l = .commit e ∧ insertHop a w.db = some w'.db ∧ (w.phase e).next = some (a.run, a.seq)

theorem db_step {w w' : World P} {l : Label P} (hi : Inv w) (h : (system P).step w l = some w') :
    w'.db = w.db ∨ Committed w w' l := by
  cases moves_of_step h with
  | refused | started | entered | hopped | fenced | begun | wrote | failed | paused | crashed =>
    exact Or.inl rfl
  | resumed | finished => exact Or.inl (syncProjection_db w _ _ _)
  | committed =>
    obtain ⟨a, work, hphase, hinsert⟩ := commit_step hi h
    exact Or.inr ⟨_, a, rfl, hinsert, by rw [hphase]; rfl⟩

theorem extends_step {w w' : World P} {l : Label P} (hi : Inv w)
    (h : (system P).step w l = some w') : Extends w.db w'.db := by
  rcases db_step hi h with heq | ⟨e, a, -, hinsert, -⟩
  · exact heq ▸ Extends.refl w.db
  · exact (insertHop_shows hinsert).kept

/-- A commit shows the checkpoint that the engine goes on from, and it held the write lock. -/
theorem inv_commit {w w' : World P} {e : EngineId} (hi : Inv w)
    (h : (system P).step w (.commit e) = some w') : Inv w' := by
  have hext := extends_step hi h
  obtain ⟨a, work, hphase, hinsert⟩ := commit_step hi h
  simp only [system, step, hphase] at h
  obtain rfl := Option.some.inj h
  have hwriter := (hi.writing e a [] work hphase).1
  have hshows : Shows a w.db work := insertHop_shows hinsert
  refine ⟨insertHop_consistent hi.consistent hinsert, fun d run seq hd => ?_,
    fun d a' remaining work' hd => ?_⟩
  · by_cases hde : d = e
    · have hp : (Function.update w.phase e (.committed a) d).next = some (run, seq) := hd
      rw [hde, Function.update_self] at hp
      cases hp
      intro n hn
      have hseq : a.seq = n := Nat.succ.inj hn
      exact Table.mem_keys.mpr ⟨_, hseq ▸ hshows.checkpoint⟩
    · have hp : (Function.update w.phase e (.committed a) d).next = some (run, seq) := hd
      rw [Function.update_of_ne hde] at hp
      exact follows_mono hext (hi.follows d run seq hp)
  · have hp : Function.update w.phase e (.committed a) d = .writing a' remaining work' := hd
    by_cases hde : d = e
    · rw [hde, Function.update_self] at hp
      cases hp
    · -- nobody else holds the write lock
      rw [Function.update_of_ne hde] at hp
      have hother := (hi.writing d a' remaining work' hp).1
      rw [hwriter] at hother
      exact absurd (Option.some.inj hother).symm hde

theorem inv_step {w w' : World P} {l : Label P} (hi : Inv w)
    (h : (system P).step w l = some w') : Inv w' := by
  have hlock (e d : EngineId) (_ : d ≠ e) (hw : w.writer = some d) : w.writer = some d := hw
  cases moves_of_step h with
  | refused => exact hi
  | @started e _ _ _ hphase | @fenced e _ hphase | @paused e _ hphase =>
    exact inv_stopped hi rfl rfl rfl (hlock e)
  | failed hphase => exact inv_stopped hi rfl rfl rfl fun d hd => writer_unlock hd
  | crashed => exact inv_stopped hi rfl rfl rfl fun d hd => writer_unlock hd
  | @entered e tenant run state hphase =>
    refine inv_moved hi rfl rfl ?_ ?_ (hlock e)
    · intro run' seq hnext
      cases hnext
      exact follows_nextSeq w.db run
    · intro a remaining work hw
      cases hw
  | @resumed e tenant run synced hphase =>
    have hphase' := setPhase_syncProjection w tenant run synced e (resumed w.db tenant run)
    refine inv_moved hi (syncProjection_db w tenant run synced) hphase' ?_ ?_ ?_
    · exact fun run' seq => follows_resumed
    · exact fun a remaining work hw => absurd hw (resumed_not_writing _ _ _ _ _ _)
    · intro d _ hd
      simpa only [setPhase, syncProjection_writer] using hd
  | @hopped e loop result hphase =>
    refine inv_moved hi rfl rfl ?_ ?_ (hlock e)
    · intro run seq hnext
      exact hi.follows e run seq (by rw [hphase]; exact hnext)
    · intro a remaining work hw
      cases hw
  | @begun e a hphase hfree =>
    refine inv_moved hi rfl rfl ?_ ?_ ?_
    · intro run seq hnext
      exact hi.follows e run seq (by rw [hphase]; exact hnext)
    · intro a' remaining work hw
      cases hw
      exact ⟨rfl, [], rfl, rfl⟩
    · intro d _ hd
      rw [hfree] at hd
      cases hd
  | @wrote e a st rest work work' hphase hst =>
    obtain ⟨hwriter, done, hdone, hwork⟩ := hi.writing e a (st :: rest) work hphase
    refine inv_moved hi rfl rfl ?_ ?_ (hlock e)
    · intro run seq hnext
      exact hi.follows e run seq (by rw [hphase]; exact hnext)
    · intro a' remaining w'' hw
      cases hw
      refine ⟨hwriter, done ++ [st], by rw [hdone, List.append_assoc]; rfl, ?_⟩
      rw [execAll_append, hwork]
      simp only [Option.bind_some, execAll, hst]
  | committed => exact inv_commit hi h
  | @finished e a synced hphase =>
    have hphase' := setPhase_syncProjection w a.tenant a.run synced e (nextTurn a)
    refine inv_moved hi (syncProjection_db w a.tenant a.run synced) hphase' ?_ ?_ ?_
    · intro run seq hnext
      unfold nextTurn at hnext
      split at hnext
      · cases hnext
      · exact hi.follows e run seq (by rw [hphase]; exact hnext)
    · intro a' remaining work hw
      unfold nextTurn at hw
      split at hw
      · cases hw
      · cases hw
    · intro d _ hd
      simpa only [setPhase, syncProjection_writer] using hd

theorem gapFree_step {w w' : World P} {l : Label P} (hi : Inv w) (run : RunId)
    (hgap : GapFree w.db run) (h : (system P).step w l = some w') : GapFree w'.db run := by
  rcases db_step hi h with heq | ⟨e, a, -, hinsert, hnext⟩
  · rw [heq]
    exact hgap
  · have hshows : Shows a w.db w'.db := insertHop_shows hinsert
    have hkept : ∀ k ∈ w.db.checkpoints.keys, k ∈ w'.db.checkpoints.keys :=
      fun k => mem_keys_of_subset hshows.kept.checkpoints
    intro n hn
    rcases hshows.only _ hn with hold | hnew
    · exact hkept _ (hgap n hold)
    · obtain ⟨hrun, hseq⟩ := Prod.mk.inj hnew
      rw [hrun]
      exact hkept _ (hi.follows e a.run a.seq hnext n hseq.symm)

/-- The seqs of a run's events are distinct: each is the key of its own row. -/
theorem eventSeqs_nodup {db : Database P} (hc : Consistent db) (tenant : TenantId) (run : RunId) :
    ((db.eventRows tenant run).map (·.event.seq)).Nodup := by
  have hrows : ((db.trajectoryEvents.rows.filter fun row =>
      row.1.1 = tenant ∧ row.1.2.1 = run).map Prod.fst).Nodup :=
    db.trajectoryEvents.nodup.sublist (List.filter_sublist.map _)
  unfold Database.eventRows
  rw [List.map_map]
  refine List.Nodup.map_on (fun r hr r' hr' heq => ?_) (List.Nodup.of_map _ hrows)
  obtain ⟨hmem, hkey⟩ := List.mem_filter.mp hr
  obtain ⟨hmem', hkey'⟩ := List.mem_filter.mp hr'
  have htenant : r.1.1 = tenant ∧ r.1.2.1 = run := of_decide_eq_true hkey
  have htenant' : r'.1.1 = tenant ∧ r'.1.2.1 = run := of_decide_eq_true hkey'
  have hseq : r.1.2.2 = r'.1.2.2 := by
    rw [← (hc.keyed r hmem).1, ← (hc.keyed r' hmem').1]
    exact heq
  have hfst : r.1 = r'.1 := by
    refine Prod.ext (htenant.1.trans htenant'.1.symm) (Prod.ext ?_ hseq)
    exact htenant.2.trans htenant'.2.symm
  exact List.inj_on_of_nodup_map db.trajectoryEvents.nodup hmem hmem' hfst

/-- Hop commits over a whole run, cut anywhere: every step leaves the database as it is or puts
one whole hop into it, no row of it is ever lost or overwritten, the events of every run are
numbered strictly upwards without repetition, every event that was not imported and every route
entry belongs to a checkpoint, and checkpoints that start without a gap stay so. -/
theorem hop_history (l : Legacy P) (ls : List (Label P)) {w : World P}
    (h : (system P).run l.world ls = some w) :
    (system P).Along (fun w lab w' => Extends w.db w'.db ∧ (w'.db = w.db ∨
      ∃ e a, lab = .commit e ∧ insertHop a w.db = some w'.db ∧ Shows a w.db w'.db)) l.world ls ∧
    (∀ tenant run, ((w.db.eventRows tenant run).map (·.event.seq)).Nodup ∧
      (w.db.eventRows tenant run).Pairwise fun r r' =>
        r'.imported = false → r.event.seq < r'.event.seq) ∧
    (∀ row ∈ w.db.trajectoryEvents.rows, row.2.imported = false →
      (row.1.2.1, row.2.hopSeq) ∈ w.db.checkpoints.keys) ∧
    (∀ key ∈ w.db.routeEntries.keys, (key.2.1, key.2.2) ∈ w.db.checkpoints.keys) ∧
    ∀ run, GapFree l.world.db run → GapFree w.db run := by
  have hinv : Inv w := System.run_invariant (fun _ _ _ hi hs => inv_step hi hs) (inv_init l) h
  refine ⟨?_, fun tenant run => ?_, hinv.consistent.hops, hinv.consistent.routes,
    fun run hgap => ?_⟩
  · refine System.along_of_inductive (fun _ _ _ hi hs => inv_step hi hs) (fun s lab t hi hs => ?_)
      (inv_init l)
    refine ⟨extends_step hi hs, ?_⟩
    rcases db_step hi hs with heq | ⟨e, a, hlab, hinsert, -⟩
    · exact Or.inl heq
    · exact Or.inr ⟨e, a, hlab, hinsert, insertHop_shows hinsert⟩
  · exact ⟨eventSeqs_nodup hinv.consistent tenant run, hinv.consistent.ordered tenant run⟩
  · have hboth : Inv w ∧ GapFree w.db run :=
      System.run_invariant (I := fun w => Inv w ∧ GapFree w.db run)
        (fun _ _ _ hi hs => ⟨inv_step hi.1 hs, gapFree_step hi.1 run hi.2 hs⟩)
        ⟨inv_init l, hgap⟩ h
    exact hboth.2

/-- A database that no run has used. -/
def unused : Legacy Unit :=
  { checkpoints := Table.empty, runSummaries := Table.empty, evalOutbox := Table.empty
    trajectoryMeta := Table.empty, outbox := Table.empty, trajectories := fun _ => [] }

def openedState : RunState :=
  { runId := "run"
    task := { request := some "list the files"
              requireGoalOrRequest := Or.inr ⟨"list the files", rfl, by decide +kernel⟩ } }

/-- One hop with an event and a route, killed behind its commit, and the run resumed. -/
def intakeThenKill : List (Label Unit) :=
  [.start 0 "local" "run" openedState, .enter 0,
    .hop 0 { nextNode := some "retrieve", state := openedState
             trajectory := [{ runId := "run", seq := 0, payload := () }]
             routeEntry := some { node := .intake, route := .always } },
    .begin 0 true] ++ List.replicate 8 (.statement 0) ++
  [.commit 0, .crash 0, .resume 0 "local" "run" true]

theorem hop_history_intake :
    ∃ w, (system Unit).run unused.world intakeThenKill = some w ∧
      w.db.checkpoints.keys = [("run", 0)] ∧ GapFree w.db "run" := by
  refine ⟨_, rfl, rfl, ?_⟩
  exact (hop_history unused intakeThenKill rfl).2.2.2.2 "run"
    fun n hn => (List.not_mem_nil hn).elim

end Recertia.Runtime
