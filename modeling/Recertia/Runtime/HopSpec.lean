import Recertia.Runtime.HopCommit
import Mathlib.Data.List.Pairwise

/-! What a committed hop leaves in the database, statement by statement. -/
namespace Recertia.Runtime

variable {P : Type*}

/-- No row of `db` is lost or changed in `db'`, apart from the summaries. -/
structure Extends (db db' : Database P) : Prop where
  checkpoints : db.checkpoints.rows ⊆ db'.checkpoints.rows
  trajectoryEvents : db.trajectoryEvents.rows ⊆ db'.trajectoryEvents.rows
  routeEntries : db.routeEntries.rows ⊆ db'.routeEntries.rows
  evalOutbox : db.evalOutbox.rows ⊆ db'.evalOutbox.rows
  outbox : db.outbox.rows ⊆ db'.outbox.rows

theorem Extends.refl (db : Database P) : Extends db db :=
  ⟨fun _ h => h, fun _ h => h, fun _ h => h, fun _ h => h, fun _ h => h⟩

theorem Extends.trans {db db' db'' : Database P} (h : Extends db db') (h' : Extends db' db'') :
    Extends db db'' :=
  ⟨List.Subset.trans h.checkpoints h'.checkpoints,
    List.Subset.trans h.trajectoryEvents h'.trajectoryEvents,
    List.Subset.trans h.routeEntries h'.routeEntries,
    List.Subset.trans h.evalOutbox h'.evalOutbox, List.Subset.trans h.outbox h'.outbox⟩

def eventRow (a : HopArgs P) (hopSeq : ℕ) (imported : Bool) (event : TrajectoryEvent P) (seq : ℕ) :
    (TenantId × RunId × ℕ) × EventRow P :=
  ((a.tenant, a.run, seq), ⟨hopSeq, { event with seq, runId := a.run }, imported⟩)

theorem rows_insertEvent {a : HopArgs P} {hopSeq seq : ℕ} {imported : Bool}
    {event : TrajectoryEvent P} {t t' : EventTable P}
    (h : insertEvent a hopSeq seq imported event t = some t') :
    t'.rows = t.rows ++ [eventRow a hopSeq imported event seq] :=
  (Table.insert_eq_some.mp h).2

theorem rows_insertAll {a : HopArgs P} {seq : ℕ} {events : List (TrajectoryEvent P)}
    {t t' : EventTable P} (h : insertAll a seq events t = some t') :
    t'.rows = t.rows ++ (events.zipIdx seq).map fun e => eventRow a a.seq false e.1 e.2 := by
  induction events generalizing seq t with
  | nil =>
    have htt : t = t' := Option.some.inj h
    rw [htt, List.zipIdx_nil, List.map_nil, List.append_nil]
  | cons event events ih =>
    obtain ⟨t₁, h₁, hrest⟩ := Option.bind_eq_some_iff.mp h
    rw [ih hrest, rows_insertEvent h₁, List.zipIdx_cons, List.map_cons, List.append_assoc]
    rfl

theorem rows_importAll {a : HopArgs P} {seen : List ℕ} {events : List (TrajectoryEvent P)}
    {t t' : EventTable P} (h : importAll a seen events t = some t') :
    ∃ added : List (TrajectoryEvent P), t'.rows = t.rows ++
      added.map fun e : TrajectoryEvent P => eventRow a 0 true e e.seq := by
  induction events generalizing seen t with
  | nil =>
    have htt : t = t' := Option.some.inj h
    exact ⟨[], by rw [htt, List.map_nil, List.append_nil]⟩
  | cons event events ih =>
    unfold importAll at h
    split at h
    · exact ih h
    · obtain ⟨t₁, h₁, hrest⟩ := Option.bind_eq_some_iff.mp h
      obtain ⟨added, hadded⟩ := ih hrest
      refine ⟨event :: added, ?_⟩
      rw [hadded, rows_insertEvent h₁, List.map_cons, List.append_assoc]
      rfl

/-- The rows of a run behind an append to the table. -/
theorem eventRows_append {db db' : Database P} {new : List ((TenantId × RunId × ℕ) × EventRow P)}
    (h : db'.trajectoryEvents.rows = db.trajectoryEvents.rows ++ new) (tenant : TenantId)
    (run : RunId) :
    db'.eventRows tenant run = db.eventRows tenant run ++
      (new.filter fun row => row.1.1 = tenant ∧ row.1.2.1 = run).map Prod.snd := by
  unfold Database.eventRows
  rw [h, List.filter_append, List.map_append]

theorem lt_nextEventSeq {db : Database P} {tenant : TenantId} {run : RunId} {row : EventRow P}
    (h : row ∈ db.eventRows tenant run) : row.event.seq < db.nextEventSeq tenant run := by
  unfold Database.nextEventSeq
  generalize db.eventRows tenant run = rows at h
  induction rows with
  | nil => exact (List.not_mem_nil h).elim
  | cons r rows ih =>
    rw [List.foldr_cons]
    rcases List.mem_cons.mp h with rfl | hrest
    · omega
    · have hlt := ih hrest
      omega

/-- The database of a run that hops alone have written since the import. -/
structure Consistent (db : Database P) : Prop where
  keyed : ∀ row ∈ db.trajectoryEvents.rows,
    row.2.event.seq = row.1.2.2 ∧ row.2.event.runId = row.1.2.1
  hops : ∀ row ∈ db.trajectoryEvents.rows, row.2.imported = false →
    (row.1.2.1, row.2.hopSeq) ∈ db.checkpoints.keys
  routes : ∀ key ∈ db.routeEntries.keys, (key.2.1, key.2.2) ∈ db.checkpoints.keys
  ordered : ∀ tenant run, (db.eventRows tenant run).Pairwise fun r r' =>
    r'.imported = false → r.event.seq < r'.event.seq

/-- Nothing but the events and the routes matters for consistency once the checkpoints stay. -/
theorem consistent_of_same {db db' : Database P} (hc : Consistent db)
    (hcheck : db.checkpoints.rows ⊆ db'.checkpoints.rows)
    (hevents : db'.trajectoryEvents = db.trajectoryEvents)
    (hroutes : db'.routeEntries = db.routeEntries) : Consistent db' := by
  have hkeys : ∀ k ∈ db.checkpoints.keys, k ∈ db'.checkpoints.keys := by
    intro k hk
    obtain ⟨v, hv⟩ := Table.mem_keys.mp hk
    exact Table.mem_keys.mpr ⟨v, hcheck hv⟩
  refine ⟨?_, ?_, ?_, ?_⟩
  · rw [hevents]
    exact hc.keyed
  · rw [hevents]
    exact fun row hrow himported => hkeys _ (hc.hops row hrow himported)
  · rw [hroutes]
    exact fun key hkey => hkeys _ (hc.routes key hkey)
  · unfold Database.eventRows
    rw [hevents]
    exact hc.ordered

/-- New event rows, each under its own key and behind the run's events. -/
theorem consistent_of_events {db db' : Database P}
    {new : List ((TenantId × RunId × ℕ) × EventRow P)} (hc : Consistent db)
    (hcheck : db'.checkpoints = db.checkpoints) (hroutes : db'.routeEntries = db.routeEntries)
    (hrows : db'.trajectoryEvents.rows = db.trajectoryEvents.rows ++ new)
    (hkeyed : ∀ row ∈ new, row.2.event.seq = row.1.2.2 ∧ row.2.event.runId = row.1.2.1)
    (hhops : ∀ row ∈ new, row.2.imported = false →
      (row.1.2.1, row.2.hopSeq) ∈ db.checkpoints.keys)
    (hordered : new.Pairwise fun r r' => r'.2.imported = false → r.2.event.seq < r'.2.event.seq)
    (hbehind : ∀ row ∈ new, row.2.imported = false →
      ∀ r ∈ db.eventRows row.1.1 row.1.2.1, r.event.seq < row.2.event.seq) : Consistent db' := by
  refine ⟨fun row hrow => ?_, fun row hrow himported => ?_, ?_, fun tenant run => ?_⟩
  · rw [hrows] at hrow
    rcases List.mem_append.mp hrow with h | h
    · exact hc.keyed row h
    · exact hkeyed row h
  · rw [hrows] at hrow
    rw [hcheck]
    rcases List.mem_append.mp hrow with h | h
    · exact hc.hops row h himported
    · exact hhops row h himported
  · rw [hroutes, hcheck]
    exact hc.routes
  · rw [eventRows_append hrows, List.pairwise_append]
    refine ⟨hc.ordered tenant run, ?_, ?_⟩
    · rw [List.pairwise_map]
      exact hordered.filter _
    · intro r hr r' hr' himported
      obtain ⟨row, hrow, rfl⟩ := List.mem_map.mp hr'
      obtain ⟨hnew, hkey⟩ := List.mem_filter.mp hrow
      have hkey' : row.1.1 = tenant ∧ row.1.2.1 = run := of_decide_eq_true hkey
      have hrun : r ∈ db.eventRows row.1.1 row.1.2.1 := by
        rw [hkey'.1, hkey'.2]
        exact hr
      exact hbehind row hnew himported r hrun

theorem mem_keys_of_subset {K V : Type*} {t t' : Table K V} (h : t.rows ⊆ t'.rows) {k : K}
    (hk : k ∈ t.keys) : k ∈ t'.keys := by
  obtain ⟨v, hv⟩ := Table.mem_keys.mp hk
  exact Table.mem_keys.mpr ⟨v, h hv⟩

theorem subset_of_insert {K V : Type*} [DecidableEq K] {t t' : Table K V} {k : K} {v : V}
    (h : t.insert k v = some t') : t.rows ⊆ t'.rows := by
  rw [(Table.insert_eq_some.mp h).2]
  exact List.subset_append_left _ _

/-- The outbox rows behind the loop: the old ones, and a row for every key. -/
theorem enqueued_outbox {K V W : Type*} [DecidableEq K] (key : W → K) (value : W → V)
    (rows : List W) (t : Table K V) :
    t.rows ⊆ (rows.foldl (fun t row => t.insertOrIgnore (key row) (value row)) t).rows ∧
      ∀ row ∈ rows,
        key row ∈ (rows.foldl (fun t row => t.insertOrIgnore (key row) (value row)) t).keys := by
  induction rows generalizing t with
  | nil => exact ⟨fun _ h => h, fun _ h => (List.not_mem_nil h).elim⟩
  | cons row rows ih =>
    obtain ⟨hkept, hkeys⟩ := ih (t.insertOrIgnore (key row) (value row))
    rw [List.foldl_cons]
    refine ⟨fun x hx => hkept (Table.mem_insertOrIgnore hx), fun r hr => ?_⟩
    rcases List.mem_cons.mp hr with rfl | hr
    · exact mem_keys_of_subset hkept (Table.key_mem_insertOrIgnore t _ _)
    · exact hkeys r hr

theorem extends_exec {a : HopArgs P} {st : Statement} {db db' : Database P}
    (h : st.exec a db = some db') : Extends db db' := by
  cases st with
  | insertCheckpoint =>
    obtain ⟨t, ht, rfl⟩ := Option.map_eq_some_iff.mp h
    exact { Extends.refl db with checkpoints := subset_of_insert ht }
  | upsertSummary =>
    obtain rfl := Option.some.inj h
    exact { Extends.refl db with }
  | enqueueEval =>
    simp only [Statement.exec] at h
    split at h
    · obtain rfl := Option.some.inj h
      exact Extends.refl db
    · obtain rfl := Option.some.inj h
      exact { Extends.refl db with evalOutbox := fun x hx => Table.mem_insertOrIgnore hx }
  | insertMeta =>
    simp only [Statement.exec] at h
    split at h
    · obtain rfl := Option.some.inj h
      exact Extends.refl db
    · obtain rfl := Option.some.inj h
      exact { Extends.refl db with }
  | importEvents =>
    simp only [Statement.exec] at h
    split at h
    · obtain ⟨t, ht, rfl⟩ := Option.map_eq_some_iff.mp h
      obtain ⟨added, hadded⟩ := rows_importAll ht
      refine { Extends.refl db with trajectoryEvents := fun x hx => ?_ }
      rw [hadded]
      exact List.mem_append_left _ hx
    · obtain rfl := Option.some.inj h
      exact Extends.refl db
  | insertEvents =>
    obtain ⟨t, ht, rfl⟩ := Option.map_eq_some_iff.mp h
    refine { Extends.refl db with trajectoryEvents := fun x hx => ?_ }
    rw [rows_insertAll ht]
    exact List.mem_append_left _ hx
  | insertRoute =>
    simp only [Statement.exec] at h
    split at h
    · obtain rfl := Option.some.inj h
      exact Extends.refl db
    · obtain ⟨t, ht, rfl⟩ := Option.map_eq_some_iff.mp h
      exact { Extends.refl db with routeEntries := subset_of_insert ht }
  | enqueueOutbox =>
    obtain rfl := Option.some.inj h
    refine { Extends.refl db with outbox := ?_ }
    exact (enqueued_outbox (fun row : OutboxRow => (a.tenant, row.kind, row.dedupeKey)) _ _ _).1

theorem pairwise_zipIdx {E : Type*} (es : List E) (n : ℕ) :
    (es.zipIdx n).Pairwise fun e e' => e.2 < e'.2 := by
  induction es generalizing n with
  | nil => exact List.Pairwise.nil
  | cons e es ih =>
    rw [List.zipIdx_cons, List.pairwise_cons]
    exact ⟨fun e' he' => List.le_snd_of_mem_zipIdx he', ih (n + 1)⟩

theorem consistent_exec {a : HopArgs P} {st : Statement} {db db' : Database P}
    (hc : Consistent db) (hcheck : st ≠ .insertCheckpoint → (a.run, a.seq) ∈ db.checkpoints.keys)
    (h : st.exec a db = some db') : Consistent db' := by
  have hkept : db.checkpoints.rows ⊆ db'.checkpoints.rows := (extends_exec h).checkpoints
  cases st with
  | insertCheckpoint =>
    obtain ⟨t, ht, rfl⟩ := Option.map_eq_some_iff.mp h
    exact consistent_of_same hc hkept rfl rfl
  | upsertSummary =>
    obtain rfl := Option.some.inj h
    exact consistent_of_same hc hkept rfl rfl
  | enqueueEval =>
    simp only [Statement.exec] at h
    split at h
    · obtain rfl := Option.some.inj h
      exact hc
    · obtain rfl := Option.some.inj h
      exact consistent_of_same hc hkept rfl rfl
  | insertMeta =>
    simp only [Statement.exec] at h
    split at h
    · obtain rfl := Option.some.inj h
      exact hc
    · obtain rfl := Option.some.inj h
      exact consistent_of_same hc hkept rfl rfl
  | importEvents =>
    simp only [Statement.exec] at h
    split at h
    · obtain ⟨t, ht, rfl⟩ := Option.map_eq_some_iff.mp h
      obtain ⟨added, hadded⟩ := rows_importAll ht
      have himported : ∀ row ∈ added.map fun e : TrajectoryEvent P => eventRow a 0 true e e.seq,
          row.2.imported = true ∧ row.2.event.seq = row.1.2.2 ∧ row.2.event.runId = row.1.2.1 := by
        intro row hrow
        obtain ⟨e, -, rfl⟩ := List.mem_map.mp hrow
        exact ⟨rfl, rfl, rfl⟩
      refine consistent_of_events hc rfl rfl hadded (fun row hrow => (himported row hrow).2)
        (fun row hrow hnot => ?_) (List.pairwise_of_forall_mem_list ?_) fun row hrow hnot => ?_
      · rw [(himported row hrow).1] at hnot
        cases hnot
      · intro r _ r' hr' hnot
        rw [(himported r' hr').1] at hnot
        cases hnot
      · rw [(himported row hrow).1] at hnot
        cases hnot
    · obtain rfl := Option.some.inj h
      exact hc
  | insertEvents =>
    obtain ⟨t, ht, rfl⟩ := Option.map_eq_some_iff.mp h
    have hrows := rows_insertAll ht
    have hhop : (a.run, a.seq) ∈ db.checkpoints.keys := hcheck (fun heq => by cases heq)
    refine consistent_of_events hc rfl rfl hrows (fun row hrow => ?_) (fun row hrow _ => ?_) ?_
      fun row hrow _ r hr => ?_
    · obtain ⟨e, -, rfl⟩ := List.mem_map.mp hrow
      exact ⟨rfl, rfl⟩
    · obtain ⟨e, -, rfl⟩ := List.mem_map.mp hrow
      exact hhop
    · rw [List.pairwise_map]
      refine (pairwise_zipIdx a.trajectory _).imp ?_
      intro e e' hlt _
      exact hlt
    · obtain ⟨e, he, rfl⟩ := List.mem_map.mp hrow
      have hlt : r.event.seq < db.nextEventSeq a.tenant a.run := lt_nextEventSeq hr
      have hle : db.nextEventSeq a.tenant a.run ≤ e.2 := List.le_snd_of_mem_zipIdx he
      exact lt_of_lt_of_le hlt hle
  | insertRoute =>
    simp only [Statement.exec] at h
    split at h
    · obtain rfl := Option.some.inj h
      exact hc
    · obtain ⟨t, ht, rfl⟩ := Option.map_eq_some_iff.mp h
      refine { hc with routes := fun key hkey => ?_ }
      obtain ⟨v, hv⟩ := Table.mem_keys.mp hkey
      have hrow : (key, v) ∈ db.routeEntries.rows ++ [((a.tenant, a.run, a.seq), _)] :=
        (Table.insert_eq_some.mp ht).2 ▸ hv
      rcases List.mem_append.mp hrow with h | h
      · exact hc.routes key (Table.mem_keys.mpr ⟨v, h⟩)
      · have hkey' : key = (a.tenant, a.run, a.seq) :=
          congrArg Prod.fst (List.mem_singleton.mp h)
        rw [hkey']
        exact hcheck (fun heq => by cases heq)
  | enqueueOutbox =>
    obtain rfl := Option.some.inj h
    exact consistent_of_same hc hkept rfl rfl

/-- Every effect of the hop is in `db'`, and every row of `db` still is. -/
structure Shows (a : HopArgs P) (db db' : Database P) : Prop where
  fresh : (a.run, a.seq) ∉ db.checkpoints.keys
  checkpoint : ((a.run, a.seq), ⟨a.node, a.nextNode, a.state, a.fencingToken⟩) ∈
    db'.checkpoints.rows
  only : ∀ k ∈ db'.checkpoints.keys, k ∈ db.checkpoints.keys ∨ k = (a.run, a.seq)
  events : ∃ first, ∀ e n, (e, n) ∈ a.trajectory.zipIdx first →
    eventRow a a.seq false e n ∈ db'.trajectoryEvents.rows
  route : ∀ r ∈ a.routeEntry, ((a.tenant, a.run, a.seq), r) ∈ db'.routeEntries.rows
  evalOutbox : ∀ e ∈ a.evalOutbox, e.observationKey ∈ db'.evalOutbox.keys
  outbox : ∀ row ∈ a.outboxRows, (a.tenant, row.kind, row.dedupeKey) ∈ db'.outbox.keys
  kept : Extends db db'

/-- The intermediate databases of a hop whose statements all succeed. -/
theorem insertHop_chain {a : HopArgs P} {db db' : Database P} (h : insertHop a db = some db') :
    ∃ d₁ d₂ d₃ d₄ d₅ d₆ d₇ : Database P, Statement.insertCheckpoint.exec a db = some d₁ ∧
      Statement.upsertSummary.exec a d₁ = some d₂ ∧ Statement.enqueueEval.exec a d₂ = some d₃ ∧
      Statement.insertMeta.exec a d₃ = some d₄ ∧ Statement.importEvents.exec a d₄ = some d₅ ∧
      Statement.insertEvents.exec a d₅ = some d₆ ∧ Statement.insertRoute.exec a d₆ = some d₇ ∧
      Statement.enqueueOutbox.exec a d₇ = some db' := by
  simp only [insertHop, statements, execAll, Option.bind_eq_some_iff, Option.some.injEq] at h
  obtain ⟨d₁, h₁, d₂, h₂, d₃, h₃, d₄, h₄, d₅, h₅, d₆, h₆, d₇, h₇, d₈, h₈, rfl⟩ := h
  exact ⟨d₁, d₂, d₃, d₄, d₅, d₆, d₇, h₁, h₂, h₃, h₄, h₅, h₆, h₇, h₈⟩

/-- Checkpoints and rows of the eval outbox have one statement each that writes them. -/
theorem exec_same {a : HopArgs P} {st : Statement} {db db' : Database P}
    (h : st.exec a db = some db') :
    (st ≠ .insertCheckpoint → db'.checkpoints = db.checkpoints) ∧
      (st ≠ .enqueueEval → db'.evalOutbox = db.evalOutbox) := by
  cases st with
  | insertCheckpoint =>
    obtain ⟨t, -, rfl⟩ := Option.map_eq_some_iff.mp h
    exact ⟨fun hst => absurd rfl hst, fun _ => rfl⟩
  | upsertSummary | enqueueOutbox =>
    obtain rfl := Option.some.inj h
    exact ⟨fun _ => rfl, fun _ => rfl⟩
  | enqueueEval =>
    refine ⟨fun _ => ?_, fun hst => absurd rfl hst⟩
    simp only [Statement.exec] at h
    split at h
    · obtain rfl := Option.some.inj h
      rfl
    · obtain rfl := Option.some.inj h
      rfl
  | insertMeta =>
    simp only [Statement.exec] at h
    split at h
    · obtain rfl := Option.some.inj h
      exact ⟨fun _ => rfl, fun _ => rfl⟩
    · obtain rfl := Option.some.inj h
      exact ⟨fun _ => rfl, fun _ => rfl⟩
  | importEvents =>
    simp only [Statement.exec] at h
    split at h
    · obtain ⟨t, -, rfl⟩ := Option.map_eq_some_iff.mp h
      exact ⟨fun _ => rfl, fun _ => rfl⟩
    · obtain rfl := Option.some.inj h
      exact ⟨fun _ => rfl, fun _ => rfl⟩
  | insertEvents =>
    obtain ⟨t, -, rfl⟩ := Option.map_eq_some_iff.mp h
    exact ⟨fun _ => rfl, fun _ => rfl⟩
  | insertRoute =>
    simp only [Statement.exec] at h
    split at h
    · obtain rfl := Option.some.inj h
      exact ⟨fun _ => rfl, fun _ => rfl⟩
    · obtain ⟨t, -, rfl⟩ := Option.map_eq_some_iff.mp h
      exact ⟨fun _ => rfl, fun _ => rfl⟩

theorem checkpoints_exec {a : HopArgs P} {st : Statement} {db db' : Database P}
    (hst : st ≠ .insertCheckpoint) (h : st.exec a db = some db') :
    db'.checkpoints = db.checkpoints :=
  (exec_same h).1 hst

theorem evalOutbox_exec {a : HopArgs P} {st : Statement} {db db' : Database P}
    (hst : st ≠ .enqueueEval) (h : st.exec a db = some db') : db'.evalOutbox = db.evalOutbox :=
  (exec_same h).2 hst

/-- The eval outbox behind a hop without a row for it. -/
theorem evalOutbox_of_none {a : HopArgs P} {db db' : Database P} (h : insertHop a db = some db')
    (hnone : a.evalOutbox = none) : db'.evalOutbox = db.evalOutbox := by
  obtain ⟨d₁, d₂, d₃, d₄, d₅, d₆, d₇, h₁, h₂, h₃, h₄, h₅, h₆, h₇, h₈⟩ := insertHop_chain h
  have h₃' : d₃ = d₂ := by
    simp only [Statement.exec, hnone] at h₃
    exact (Option.some.inj h₃).symm
  rw [evalOutbox_exec (by simp) h₈, evalOutbox_exec (by simp) h₇, evalOutbox_exec (by simp) h₆,
    evalOutbox_exec (by simp) h₅, evalOutbox_exec (by simp) h₄, h₃', evalOutbox_exec (by simp) h₂,
    evalOutbox_exec (by simp) h₁]

/-- The eval outbox behind a hop with a row for it. -/
theorem evalOutbox_of_some {a : HopArgs P} {db db' : Database P} {e : EvalOutboxWrite}
    (h : insertHop a db = some db') (hsome : a.evalOutbox = some e) :
    db'.evalOutbox = db.evalOutbox.insertOrIgnore e.observationKey
      { tenantId := e.tenantId, runId := e.runId, attemptNo := e.attemptNo
        payload := e.payload } := by
  obtain ⟨d₁, d₂, d₃, d₄, d₅, d₆, d₇, h₁, h₂, h₃, h₄, h₅, h₆, h₇, h₈⟩ := insertHop_chain h
  have h₂' : d₂.evalOutbox = db.evalOutbox := by
    rw [evalOutbox_exec (by simp) h₂, evalOutbox_exec (by simp) h₁]
  simp only [Statement.exec, hsome] at h₃
  obtain rfl := Option.some.inj h₃
  rw [evalOutbox_exec (by simp) h₈, evalOutbox_exec (by simp) h₇, evalOutbox_exec (by simp) h₆,
    evalOutbox_exec (by simp) h₅, evalOutbox_exec (by simp) h₄, h₂']

theorem insertHop_shows {a : HopArgs P} {db db' : Database P} (h : insertHop a db = some db') :
    Shows a db db' := by
  obtain ⟨d₁, d₂, d₃, d₄, d₅, d₆, d₇, h₁, h₂, h₃, h₄, h₅, h₆, h₇, h₈⟩ := insertHop_chain h
  have e₁ : Extends db d₁ := extends_exec h₁
  have e₃ : Extends d₁ d₃ := (extends_exec h₂).trans (extends_exec h₃)
  have e₆ : Extends d₃ d₆ :=
    ((extends_exec h₄).trans (extends_exec h₅)).trans (extends_exec h₆)
  have e₇ : Extends d₆ d₇ := extends_exec h₇
  have e₈ : Extends d₇ db' := extends_exec h₈
  have hcheck : db'.checkpoints = d₁.checkpoints := by
    rw [checkpoints_exec (by simp) h₈, checkpoints_exec (by simp) h₇, checkpoints_exec (by simp) h₆,
      checkpoints_exec (by simp) h₅, checkpoints_exec (by simp) h₄, checkpoints_exec (by simp) h₃,
      checkpoints_exec (by simp) h₂]
  obtain ⟨t₁, ht₁, hd₁⟩ := Option.map_eq_some_iff.mp h₁
  obtain ⟨hfresh, hrows⟩ := Table.insert_eq_some.mp ht₁
  have hrows' : db'.checkpoints.rows = db.checkpoints.rows ++
      [((a.run, a.seq), ⟨a.node, a.nextNode, a.state, a.fencingToken⟩)] := by
    rw [hcheck, ← hd₁]
    exact hrows
  obtain ⟨t₆, ht₆, hd₆⟩ := Option.map_eq_some_iff.mp h₆
  refine ⟨hfresh, ?_, ?_, ⟨d₅.nextEventSeq a.tenant a.run, ?_⟩, ?_, ?_, ?_,
    (((e₁.trans e₃).trans e₆).trans e₇).trans e₈⟩
  · rw [hrows']
    exact List.mem_append_right _ List.mem_cons_self
  · intro k hk
    obtain ⟨v, hv⟩ := Table.mem_keys.mp hk
    rw [hrows'] at hv
    rcases List.mem_append.mp hv with hold | hnew
    · exact Or.inl (Table.mem_keys.mpr ⟨v, hold⟩)
    · exact Or.inr (congrArg Prod.fst (List.mem_singleton.mp hnew))
  · intro e n hen
    apply (e₇.trans e₈).trajectoryEvents
    rw [← hd₆]
    show _ ∈ t₆.rows
    rw [rows_insertAll ht₆]
    exact List.mem_append_right _ (List.mem_map.mpr ⟨(e, n), hen, rfl⟩)
  · intro r hr
    apply e₈.routeEntries
    simp only [Statement.exec, Option.mem_def.mp hr] at h₇
    obtain ⟨t₇, ht₇, rfl⟩ := Option.map_eq_some_iff.mp h₇
    rw [(Table.insert_eq_some.mp ht₇).2]
    exact List.mem_append_right _ List.mem_cons_self
  · intro e he
    simp only [Statement.exec, Option.mem_def.mp he] at h₃
    obtain rfl := Option.some.inj h₃
    exact mem_keys_of_subset ((e₆.trans e₇).trans e₈).evalOutbox
      (Table.key_mem_insertOrIgnore _ _ _)
  · intro row hrow
    obtain rfl := Option.some.inj h₈
    exact (enqueued_outbox (fun row : OutboxRow => (a.tenant, row.kind, row.dedupeKey)) _ _ _).2
      row hrow

/-- The one new checkpoint of a hop is its own. -/
theorem Shows.checkpoints {a : HopArgs P} {db db' : Database P} (h : Shows a db db')
    {row : (RunId × ℕ) × CheckpointRow} (hrow : row ∈ db'.checkpoints.rows) :
    row ∈ db.checkpoints.rows ∨
      row = ((a.run, a.seq), ⟨a.node, a.nextNode, a.state, a.fencingToken⟩) := by
  obtain ⟨key, value⟩ := row
  rcases h.only key (Table.mem_keys.mpr ⟨value, hrow⟩) with hold | rfl
  · obtain ⟨old, hmem⟩ := Table.mem_keys.mp hold
    have hvalue : value = old := Table.row_unique hrow (h.kept.checkpoints hmem)
    exact Or.inl (hvalue ▸ hmem)
  · exact Or.inr (Prod.ext rfl (Table.row_unique hrow h.checkpoint))

theorem insertHop_consistent {a : HopArgs P} {db db' : Database P} (hc : Consistent db)
    (h : insertHop a db = some db') : Consistent db' := by
  obtain ⟨d₁, d₂, d₃, d₄, d₅, d₆, d₇, h₁, h₂, h₃, h₄, h₅, h₆, h₇, h₈⟩ := insertHop_chain h
  have hkey : ∀ {d d' : Database P} {st : Statement}, (a.run, a.seq) ∈ d.checkpoints.keys →
      st.exec a d = some d' → (a.run, a.seq) ∈ d'.checkpoints.keys :=
    fun hk hd => mem_keys_of_subset (extends_exec hd).checkpoints hk
  have c₁ : Consistent d₁ := consistent_exec hc (fun hne => absurd rfl hne) h₁
  have k₁ : (a.run, a.seq) ∈ d₁.checkpoints.keys := by
    obtain ⟨t₁, ht₁, rfl⟩ := Option.map_eq_some_iff.mp h₁
    refine Table.mem_keys.mpr ⟨⟨a.node, a.nextNode, a.state, a.fencingToken⟩, ?_⟩
    rw [(Table.insert_eq_some.mp ht₁).2]
    exact List.mem_append_right _ List.mem_cons_self
  have k₂ := hkey k₁ h₂
  have k₃ := hkey k₂ h₃
  have k₄ := hkey k₃ h₄
  have k₅ := hkey k₄ h₅
  have k₆ := hkey k₅ h₆
  have k₇ := hkey k₆ h₇
  have c₂ := consistent_exec c₁ (fun _ => k₁) h₂
  have c₃ := consistent_exec c₂ (fun _ => k₂) h₃
  have c₄ := consistent_exec c₃ (fun _ => k₃) h₄
  have c₅ := consistent_exec c₄ (fun _ => k₄) h₅
  have c₆ := consistent_exec c₅ (fun _ => k₅) h₆
  have c₇ := consistent_exec c₆ (fun _ => k₆) h₇
  exact consistent_exec c₇ (fun _ => k₇) h₈

end Recertia.Runtime
