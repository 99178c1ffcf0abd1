import Recertia.Evals.OutboxSafety

/-! Exactly one observation for every finished run: at most one because the eval store has the run
for its key, and at least one because every drain that comes to its end has answered every row that
it found. -/
namespace Recertia.Evals

open Recertia.Runtime (TenantId RunId Database EvalOutboxRow TrajectoryEvent)
open Transition

variable {P : Type*}

theorem observations_eq (w : World P) (run : RunId) :
    w.observations run = if run ∈ w.evals.keys then 1 else 0 :=
  Table.count_key w.evals run

theorem queued_mono {s t : Logged P} (hg : Grows s t) {key : String} {run : RunId}
    (h : s.1.Queued key run) : t.1.Queued key run := by
  obtain ⟨row, hrow, hrun⟩ := h
  obtain ⟨row', hrow', hrun', -⟩ := hg.outbox key row hrow
  exact ⟨row', hrow', hrun'.trans hrun⟩

/-- What drain `d` leaves of a row: an observation, a row that has failed often enough, or a failed
delivery of its own. -/
def Answered (s : Logged P) (d : DrainId) (key : String) (run : RunId) : Prop :=
  run ∈ s.1.evals.keys ∨ maxAttempts ≤ failures s.2 key ∨ (d, key) ∈ s.2

theorem Answered.mono {s t : Logged P} (hg : Grows s t) {d : DrainId} {key : String} {run : RunId}
    (h : Answered s d key run) : Answered t d key run := by
  rcases h with hrun | hmax | hlog
  · exact Or.inl (hg.recorded hrun)
  · exact Or.inr (Or.inl (le_trans hmax (hg.failures key)))
  · exact Or.inr (Or.inr (hg.log.subset hlog))

/-- A drain that has not stopped still has the row before it, or has answered it. -/
def Ahead (s : Logged P) (d : DrainId) (key : String) (run : RunId) (p : Drain) : Prop :=
  p = .stopped ∨ (∃ item ∈ p.rows, item.observationKey = key) ∨ Answered s d key run

theorem Ahead.mono {s t : Logged P} (hg : Grows s t) {d : DrainId} {key : String} {run : RunId}
    {p q : Drain} (hrows : q.rows = p.rows) (hp : p ≠ .stopped) (h : Ahead s d key run p) :
    Ahead t d key run q := by
  rcases h with hstopped | hitem | hanswered
  · exact absurd hstopped hp
  · exact Or.inr (Or.inl (hrows ▸ hitem))
  · exact Or.inr (Or.inr (hanswered.mono hg))

/-- A drain that begins finds the row, unless the row is settled. -/
theorem ahead_began {s t : Logged P} (hs : Sound s) (hg : Grows s t) {d : DrainId} {key : String}
    {run : RunId} (hq : s.1.Queued key run) {order : List String}
    (hperm : order.Perm (pendingKeys s.1.runtime.db)) (count : ℕ) :
    Ahead t d key run (.running (pendingEvalOutbox s.1.runtime.db order) count) := by
  obtain ⟨row, hrow, rfl⟩ := hq
  have hbacked := (hs.rows key row hrow).backed
  cases hstatus : row.status with
  | pending =>
    have hpending : key ∈ pendingKeys s.1.runtime.db := by
      have hmem := Table.get?_eq_some.mp hrow
      exact List.mem_map.mpr
        ⟨(key, row), List.mem_filter.mpr ⟨hmem, decide_eq_true hstatus⟩, rfl⟩
    refine Or.inr (Or.inl ⟨⟨key, row.payload, row.attempts⟩, ?_, rfl⟩)
    refine List.mem_filterMap.mpr ⟨key, hperm.mem_iff.mpr hpending, ?_⟩
    rw [hrow]
    rfl
  | delivered => exact Or.inr (Or.inr (Or.inl (hg.recorded (hbacked.recorded hstatus))))
  | dead =>
    have hmax : maxAttempts ≤ failures s.2 key :=
      le_trans (hbacked.dead hstatus) hbacked.failed
    exact Or.inr (Or.inr (Or.inr (Or.inl (le_trans hmax (hg.failures key)))))

/-- A delivery answers the row at the head. -/
theorem ahead_delivery {s t : Logged P} (hg : Grows s t) {d : DrainId} {key : String} {run : RunId}
    {row : EvalOutboxPending} {rows : List EvalOutboxPending} {count count' : ℕ} {m : Mark}
    (h : Ahead s d key run (.running (row :: rows) count))
    (hanswer : row.observationKey = key → Answered t d key run) :
    Ahead t d key run (.marking m rows count') := by
  rcases h with hstopped | ⟨item, hitem, hkey⟩ | hanswered
  · cases hstopped
  · rcases List.mem_cons.mp hitem with rfl | hrest
    · exact Or.inr (Or.inr (hanswer hkey))
    · exact Or.inr (Or.inl ⟨item, hrest, hkey⟩)
  · exact Or.inr (Or.inr (hanswered.mono hg))

/-- The payload that a drain carries is the state of the run of its row. -/
theorem payload_of_queued {s : Logged P} (hs : Sound s) {item : EvalOutboxPending} {run : RunId}
    (hc : Carried s item) (hq : s.1.Queued item.observationKey run) : item.payload.runId = run := by
  obtain ⟨row, hrow, hpayload, -⟩ := hc
  obtain ⟨q, hq, hrun⟩ := hq
  have hsame : q = row := Option.some.inj (hq.symm.trans hrow)
  rw [← hpayload, (hs.rows _ row hrow).payload, ← hsame, hrun]

theorem ahead_effect {s t : Logged P} (hs : Sound s) (h : Effect s t) {d : DrainId} {key : String}
    {run : RunId} (hq : s.1.Queued key run)
    (hd : ∀ p, s.1.drains d = some p → Ahead s d key run p) :
    ∀ p, t.1.drains d = some p → Ahead t d key run p := by
  have hg := grows_effect hs h
  have hsame : ∀ p, s.1.drains d = some p → Ahead t d key run p := by
    intro p hp
    rcases hd p hp with hstopped | hrest
    · exact Or.inl hstopped
    · rcases hrest with hitem | hanswered
      · exact Or.inr (Or.inl hitem)
      · exact Or.inr (Or.inr (hanswered.mono hg))
  intro p hp
  cases h with
  | engine htenant hstep => exact hsame p hp
  | appended hrows => exact hsame p hp
  | crashed =>
    rcases drains_setDrain hp with ⟨-, rfl⟩ | hold
    · exact Or.inl rfl
    · exact hsame p hold
  | began hnew hperm =>
    rcases drains_setDrain hp with ⟨rfl, rfl⟩ | hold
    · exact ahead_began hs hg hq hperm 0
    · exact hsame p hold
  | @recorded d' row rows count evals hdrain hrows hkey =>
    rcases drains_setDrain hp with ⟨rfl, rfl⟩ | hold
    · apply ahead_delivery hg (hd _ hdrain)
      intro hrow
      have hcarried := (hs.drains d _ hdrain).rows row List.mem_cons_self
      have hrun : row.payload.runId = run := payload_of_queued hs hcarried (hrow ▸ hq)
      exact Or.inl (hrun ▸ hkey)
    · exact hsame p hold
  | failed hdrain hrows =>
    rcases drains_setDrain hp with ⟨rfl, rfl⟩ | hold
    · apply ahead_delivery hg (hd _ hdrain)
      intro hrow
      exact Or.inr (Or.inr (hrow ▸ List.mem_cons_self))
    · exact hsame p hold
  | marked hdrain hfree =>
    rcases drains_setDrain hp with ⟨rfl, rfl⟩ | hold
    · refine Ahead.mono hg ?_ (fun hstopped => ?_) (hd _ hdrain)
      · rfl
      · cases hstopped
    · exact hsame p hold

/-- A drain that begins when the row is queued and returns has answered it. -/
theorem answered_of_returned {repr : String → String} {s t : Logged P} {ls : List (Label P)}
    (hs : Sound s) (h : (logged repr P).run s ls = some t) {key : String} {run : RunId}
    (hq : s.1.Queued key run) {d : DrainId} (hnew : s.1.drains d = none)
    (hreturned : t.1.Returned d) : Answered t d key run := by
  have hinv : Sound t ∧ t.1.Queued key run ∧ ∀ p, t.1.drains d = some p → Ahead t d key run p := by
    apply System.run_invariant
      (I := fun u => Sound u ∧ u.1.Queued key run ∧ ∀ p, u.1.drains d = some p →
        Ahead u d key run p) _ ⟨hs, hq, fun p hp => ?_⟩ h
    · rintro u l v ⟨hu, hqu, hdu⟩ hstep
      have heffect := effect_of_step hstep
      exact ⟨sound_effect hu heffect, queued_mono (grows_effect hu heffect) hqu,
        ahead_effect hu heffect hqu hdu⟩
    · rw [hnew] at hp
      cases hp
  obtain ⟨count, hcount⟩ := hreturned
  rcases hinv.2.2 _ hcount with hstopped | ⟨item, hitem, -⟩ | hanswered
  · cases hstopped
  · exact (List.not_mem_nil hitem).elim
  · exact hanswered

/-- Each of these drains has failed on the row once. -/
theorem length_le_failures {log : List (DrainId × String)} {key : String} {ds : List DrainId}
    (hds : ds.Nodup) (hlog : ∀ d ∈ ds, (d, key) ∈ log) : ds.length ≤ failures log key := by
  have hnodup : (ds.map fun d => (d, key)).Nodup :=
    hds.map fun _ _ heq => congrArg Prod.fst heq
  have hsub : (ds.map fun d => (d, key)).Subperm (log.filter fun failure => failure.2 = key) := by
    apply hnodup.subperm
    intro failure hmem
    obtain ⟨d, hd, rfl⟩ := List.mem_map.mp hmem
    exact List.mem_filter.mpr ⟨hlog d hd, decide_eq_true rfl⟩
  calc ds.length = (ds.map fun d => (d, key)).length := (List.length_map _).symm
    _ ≤ (log.filter fun failure => failure.2 = key).length := hsub.length_le
    _ = failures log key := (List.countP_eq_length_filter ..).symm

/-- Complete drains, each of which may fail on the row, until it has failed often enough. -/
theorem settled_of_returned {repr : String → String} {s t : Logged P} {ls : List (Label P)}
    (hs : Sound s) (h : (logged repr P).run s ls = some t) {key : String} {run : RunId}
    (hq : s.1.Queued key run) {ds : List DrainId} (hds : ds.Nodup)
    (hreturned : ∀ d ∈ ds, s.1.drains d = none ∧ t.1.Returned d) :
    t.1.observations run = 1 ∨ min maxAttempts ds.length ≤ failures t.2 key := by
  by_cases hrun : run ∈ t.1.evals.keys
  · left
    rw [observations_eq, if_pos hrun]
  · right
    by_cases hmax : maxAttempts ≤ failures t.2 key
    · exact le_trans (min_le_left _ _) hmax
    · have hlog : ∀ d ∈ ds, (d, key) ∈ t.2 := by
        intro d hd
        obtain ⟨hnew, hend⟩ := hreturned d hd
        rcases answered_of_returned hs h hq hnew hend with hkey | hfailed | hmem
        · exact absurd hkey hrun
        · exact absurd hfailed hmax
        · exact hmem
      exact le_trans (min_le_right _ _) (length_le_failures hds hlog)

/-- The steps of one drain that nothing disturbs. -/
def drainCall (d : DrainId) (outcome : String → Delivery) (order : List String) :
    List (Label P) :=
  .begin d order :: order.flatMap fun key => [.deliver d (outcome key), .mark d]

theorem logged_step {repr : String → String} {s : Logged P} {l : Label P} {w : World P}
    (h : step repr s.1 l = some w) :
    (logged repr P).step s l = some (w, (failure repr s.1 l).toList ++ s.2) :=
  System.monitor_step.mpr ⟨h, rfl⟩

/-- A row takes two steps: the delivery, and the mark that it asks for. -/
theorem run_row (repr : String → String) (delivery : Delivery) {s : Logged P} {d : DrainId}
    {row : EvalOutboxPending} {rows : List EvalOutboxPending} {count : ℕ}
    (hdrain : s.1.drains d = some (.running (row :: rows) count))
    (hfree : s.1.runtime.writer = none) :
    ∃ t count', (logged repr P).run s [.deliver d delivery, .mark d] = some t ∧
      t.1.drains d = some (.running rows count') ∧ t.1.runtime.writer = none ∧
        ∀ d', d' ≠ d → t.1.drains d' = s.1.drains d' := by
  let evals := (deliver row s.1.evals delivery).1
  let m := markFor repr row (deliver row s.1.evals delivery).2
  let v := setDrain { s.1 with evals } d (.marking m rows count)
  have hdeliver : step repr s.1 (.deliver d delivery) = some v := by
    simp only [step, hdrain, v, m, evals]
  have hmarking : v.drains d = some (.marking m rows count) := Function.update_self ..
  have hvfree : v.runtime.writer = none := hfree
  let runtime := { v.runtime with db := markEvalOutbox v.runtime.db m }
  let count' := if m.counted then count + 1 else count
  have hmark : step repr v (.mark d) =
      some (setDrain { v with runtime } d (.running rows count')) := by
    simp only [step, hmarking, hvfree, runtime, count']
  refine ⟨_, count', System.run_cons.mpr ⟨_, logged_step hdeliver,
    System.run_cons.mpr ⟨_, logged_step hmark, rfl⟩⟩, Function.update_self .., hfree,
    fun d' hd' => ?_⟩
  calc Function.update v.drains d (some (.running rows count')) d'
    _ = v.drains d' := Function.update_of_ne hd' ..
    _ = s.1.drains d' := Function.update_of_ne hd' ..

/-- A drain goes through its rows, whatever becomes of the deliveries. -/
theorem run_rows (repr : String → String) (outcome : String → Delivery) {s : Logged P}
    {d : DrainId} {rows : List EvalOutboxPending} {count : ℕ}
    (hdrain : s.1.drains d = some (.running rows count)) (hfree : s.1.runtime.writer = none) :
    ∃ t, (logged repr P).run s
        ((rows.map EvalOutboxPending.observationKey).flatMap fun key =>
          [.deliver d (outcome key), .mark d]) = some t ∧
      t.1.Returned d ∧ t.1.runtime.writer = none ∧
        ∀ d', d' ≠ d → t.1.drains d' = s.1.drains d' := by
  induction rows generalizing s count with
  | nil => exact ⟨s, rfl, ⟨count, hdrain⟩, hfree, fun _ _ => rfl⟩
  | cons row rows ih =>
    obtain ⟨t, count', hrun, ht, htfree, hothers⟩ :=
      run_row repr (outcome row.observationKey) hdrain hfree
    obtain ⟨u, hrest, hreturned, hufree, hothers'⟩ := ih ht htfree
    refine ⟨u, ?_, hreturned, hufree, fun d' hd' => (hothers' d' hd').trans (hothers d' hd')⟩
    rw [List.map_cons, List.flatMap_cons]
    exact System.run_append.mpr ⟨t, hrun, hrest⟩

theorem keys_pendingEvalOutbox {db : Database P} {order : List String}
    (horder : ∀ key ∈ order, key ∈ pendingKeys db) :
    (pendingEvalOutbox db order).map EvalOutboxPending.observationKey = order := by
  induction order with
  | nil => rfl
  | cons key order ih =>
    obtain ⟨row, hrow, hkey⟩ := List.mem_map.mp (horder key List.mem_cons_self)
    have hget : db.evalOutbox.get? key = some row.2 := by
      rw [Table.get?_eq_some, ← hkey]
      exact (List.mem_filter.mp hrow).1
    have hrest := ih fun k hk => horder k (List.mem_cons_of_mem _ hk)
    simp only [pendingEvalOutbox, List.filterMap_cons, hget, Option.map_some, List.map_cons]
    exact congrArg (key :: ·) hrest

/-- A drain that nothing disturbs returns. -/
theorem run_drainCall (repr : String → String) (outcome : String → Delivery) {s : Logged P}
    {d : DrainId} (hnew : s.1.drains d = none) (hfree : s.1.runtime.writer = none) :
    ∃ t, (logged repr P).run s (drainCall d outcome (pendingKeys s.1.runtime.db)) = some t ∧
      t.1.Returned d ∧ t.1.runtime.writer = none ∧
        ∀ d', d' ≠ d → t.1.drains d' = s.1.drains d' := by
  let order := pendingKeys s.1.runtime.db
  let rows := pendingEvalOutbox s.1.runtime.db order
  let v := setDrain s.1 d (.running rows 0)
  have hbegin : step repr s.1 (.begin d order) = some v := by
    simp only [step, hnew, if_pos (List.Perm.refl order), v, rows, order]
  have hv : v.drains d = some (.running rows 0) := Function.update_self ..
  have hkeys : rows.map EvalOutboxPending.observationKey = order :=
    keys_pendingEvalOutbox fun _ h => h
  obtain ⟨t, hrun, hreturned, htfree, hothers⟩ :=
    run_rows repr outcome (s := (v, s.2)) hv hfree
  rw [hkeys] at hrun
  refine ⟨t, System.run_cons.mpr ⟨_, logged_step hbegin, hrun⟩, hreturned, htfree,
    fun d' hd' => ?_⟩
  calc t.1.drains d' = v.drains d' := hothers d' hd'
    _ = s.1.drains d' := Function.update_of_ne hd' ..

/-- Any number of drains, one behind the other. -/
theorem run_drainCalls (repr : String → String) (outcome : DrainId → String → Delivery)
    {s : Logged P} {ds : List DrainId} (hds : ds.Nodup) (hnew : ∀ d ∈ ds, s.1.drains d = none)
    (hfree : s.1.runtime.writer = none) :
    ∃ orders : List (List String), ∃ t, (logged repr P).run s
        ((ds.zip orders).flatMap fun call => drainCall call.1 (outcome call.1) call.2) = some t ∧
      (∀ d ∈ ds, t.1.Returned d) ∧ ∀ d', d' ∉ ds → t.1.drains d' = s.1.drains d' := by
  induction ds generalizing s with
  | nil => exact ⟨[], s, rfl, fun _ hd => (List.not_mem_nil hd).elim, fun _ _ => rfl⟩
  | cons d ds ih =>
    obtain ⟨hnotin, hds⟩ := List.nodup_cons.mp hds
    obtain ⟨t, hrun, ⟨count, hreturned⟩, htfree, hothers⟩ :=
      run_drainCall repr (outcome d) (hnew d List.mem_cons_self) hfree
    have hnew' : ∀ d' ∈ ds, t.1.drains d' = none := by
      intro d' hd'
      have hne : d' ≠ d := fun heq => hnotin (heq ▸ hd')
      rw [hothers d' hne]
      exact hnew d' (List.mem_cons_of_mem _ hd')
    obtain ⟨orders, u, hrest, hall, hothers'⟩ := ih hds hnew' htfree
    refine ⟨pendingKeys s.1.runtime.db :: orders, u, ?_, fun d' hd' => ?_, fun d' hd' => ?_⟩
    · rw [List.zip_cons_cons, List.flatMap_cons]
      exact System.run_append.mpr ⟨t, hrun, hrest⟩
    · rcases List.mem_cons.mp hd' with rfl | hd'
      · exact ⟨count, (hothers' _ hnotin).trans hreturned⟩
      · exact hall d' hd'
    · rw [List.mem_cons, not_or] at hd'
      exact (hothers' d' hd'.2).trans (hothers d' hd'.1)

theorem queued_of_finalized {s : Logged P} (hs : Sound s) {run : RunId} (h : s.1.Finalized run) :
    ∃ key, s.1.Queued key run := by
  obtain ⟨row, hrow, hnode, hterminal, rfl⟩ := h
  obtain ⟨tenant, htenant, q, hq⟩ := hs.final row hrow hnode hterminal
  have hok := hs.rows _ q hq
  -- The key has no row of another run.
  have hrun := (observationKey_inj htenant hok.tenant hok.own).2.1
  exact ⟨_, q, hq, hrun.symm⟩

theorem status_eq_some {s : Logged P} {key : String} {status : Runtime.DeliveryStatus}
    (hs : Sound s) {run : RunId} (hq : s.1.Queued key run) (h : s.1.status key = some status) :
    ∃ attempts, Backed s key run status attempts := by
  obtain ⟨row, hrow, rfl⟩ := hq
  obtain ⟨row', hrow', rfl⟩ := Option.map_eq_some_iff.mp h
  have hsame : row' = row := Option.some.inj (hrow'.symm.trans hrow)
  rw [hsame]
  exact ⟨row.attempts, (hs.rows key row hrow).backed⟩

/-- `run` has exactly one observation, or each of `n` drains has failed on its row, up to the
maximum. -/
def Settled (s : Logged P) (n : ℕ) (key : String) (run : RunId) : Prop :=
  s.1.observations run = 1 ∨ min maxAttempts n ≤ failures s.2 key

/-- The outbox delivers exactly once. From a new database on, over every interleaving of hops,
drains, crashes and other writers of observations: no run has two observations and none is lost; a
finished run has a row in the outbox, and the row stays; a row is marked as delivered only with
exactly one observation of its run, and as dead only behind the maximum of failed deliveries; drains
that begin behind the final hop and return have settled the row; and drains that nothing disturbs do
return, whatever their deliveries come to. -/
theorem evalOutbox_exactly_once (repr : String → String)
    (trajectories : RunId → List (TrajectoryEvent P)) (evals : EvalStore)
    {pre post : List (Label P)} {v w : Logged P}
    (hv : (logged repr P).run (World.fresh trajectories evals, []) pre = some v)
    (hw : (logged repr P).run v post = some w) :
    (∀ run, w.1.observations run ≤ 1) ∧ v.1.evals.rows ⊆ w.1.evals.rows ∧
    (∀ run, v.1.Finalized run → ∃ key, v.1.Queued key run) ∧
    (∀ key run, v.1.Queued key run → w.1.Queued key run ∧
      (w.1.status key = some .delivered → w.1.observations run = 1) ∧
      (w.1.status key = some .dead → maxAttempts ≤ failures w.2 key) ∧
      ∀ ds : List DrainId, ds.Nodup → (∀ d ∈ ds, v.1.drains d = none ∧ w.1.Returned d) →
        Settled w ds.length key run) ∧
    (w.1.runtime.writer = none → ∀ (ds : List DrainId) (outcome : DrainId → String → Delivery),
      ds.Nodup → (∀ d ∈ ds, w.1.drains d = none) →
        ∃ orders : List (List String), ∃ u, (logged repr P).run w
          ((ds.zip orders).flatMap fun call => drainCall call.1 (outcome call.1) call.2) = some u ∧
          ∀ key run, w.1.Queued key run → Settled u ds.length key run) := by
  obtain ⟨hsv, -⟩ := sound_run (sound_fresh trajectories evals) hv
  obtain ⟨hsw, hg⟩ := sound_run hsv hw
  refine ⟨fun run => ?_, hg.evals, fun run => queued_of_finalized hsv, fun key run hq => ?_,
    fun hfree ds outcome hds hnew => ?_⟩
  · rw [observations_eq]
    split <;> omega
  · have hqw := queued_mono hg hq
    refine ⟨hqw, fun hstatus => ?_, fun hstatus => ?_, fun ds hds hreturned => ?_⟩
    · obtain ⟨attempts, hb⟩ := status_eq_some hsw hqw hstatus
      rw [observations_eq, if_pos (hb.recorded rfl)]
    · obtain ⟨attempts, hb⟩ := status_eq_some hsw hqw hstatus
      exact le_trans (hb.dead rfl) hb.failed
    · exact settled_of_returned hsv hw hq hds hreturned
  · obtain ⟨orders, u, hrun, hreturned, -⟩ := run_drainCalls repr outcome hds hnew hfree
    exact ⟨orders, u, hrun, fun key run hq =>
      settled_of_returned hsw hrun hq hds fun d hd => ⟨hnew d hd, hreturned d hd⟩⟩

def solvedState : Graph.RunState :=
  { Runtime.openedState with
    task := { Runtime.openedState.task with taskClass := some "repo-chore" }
    attemptNo := 1, terminal := some .solved }

/-- A hop from its engine's start of the transaction to the commit. -/
def commitHop (result : Runtime.HopResult Unit) : List (Label Unit) :=
  [.engine (.hop 0 result), .engine (.begin 0 true)] ++
    List.replicate 8 (.engine (.statement 0)) ++ [.engine (.commit 0)]

/-- A run of two hops that ends as solved. -/
def solvedRun : List (Label Unit) :=
  [.engine (.start 0 "local" "run" Runtime.openedState), .engine (.enter 0)] ++
    commitHop { nextNode := some "finalize", state := Runtime.openedState } ++
    [.engine (.finish 0 true)] ++ commitHop { nextNode := none, state := solvedState }

/-- Two drains have the row; the first one records the observation and dies before its mark. -/
def racingDrains : List (Label Unit) :=
  let recorded := Delivery.appends
    { criteriaLockedAt := some "2026-01-01", criteriaHash := some "h", indexSnapshotId := some "s" }
    "2026-01-02" true
  [.begin 1 ["local/run/1"], .begin 2 ["local/run/1"], .deliver 1 recorded, .crash 1,
    .deliver 2 recorded, .mark 2]

theorem evalOutbox_exactly_once_racing : ∃ v w : Logged Unit,
    (logged id Unit).run (World.fresh (fun _ => []) Table.empty, []) solvedRun = some v ∧
    (logged id Unit).run v racingDrains = some w ∧ v.1.Queued "local/run/1" "run" ∧
    w.1.observations "run" = 1 := by
  have hchecked : ((logged id Unit).run (World.fresh (fun _ => []) Table.empty, []) solvedRun).any
      (fun v =>
        decide ((v.1.runtime.db.evalOutbox.get? "local/run/1").map (·.runId) = some "run") &&
          ((logged id Unit).run v racingDrains).any fun w =>
            decide (w.1.status "local/run/1" = some .delivered)) = true := by
    decide +kernel
  obtain ⟨v, hv, hcheck⟩ := (Option.any_eq_true _ _).mp hchecked
  obtain ⟨hrow, hcheck⟩ := Bool.and_eq_true_iff.mp hcheck
  obtain ⟨w, hw, hstatus⟩ := (Option.any_eq_true _ _).mp hcheck
  have hqueued : v.1.Queued "local/run/1" "run" :=
    Option.map_eq_some_iff.mp (of_decide_eq_true hrow)
  have hexact := evalOutbox_exactly_once id (fun _ => []) Table.empty hv hw
  exact ⟨v, w, hv, hw, hqueued, (hexact.2.2.2.1 _ _ hqueued).2.1 (of_decide_eq_true hstatus)⟩

end Recertia.Evals
