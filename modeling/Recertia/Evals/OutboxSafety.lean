import Recertia.Evals.Outbox

/-! What holds of the evaluation outbox behind every run of hops and drains: no row is lost, and no
row leaves the queue before its run has an observation or its delivery has failed often enough. -/
namespace Recertia.Evals

open Graph (RunState)
open Recertia.Runtime (TenantId RunId Database DeliveryStatus EvalOutboxRow HopArgs insertHop)
open Transition

variable {P : Type*}

/-- A world with its log of failed deliveries. -/
abbrev Logged (P : Type*) := World P × List (DrainId × String)

def Logged.outbox (s : Logged P) : Table String EvalOutboxRow := s.1.runtime.db.evalOutbox

/-- What a step can do. -/
inductive Effect (s : Logged P) : Logged P → Prop
  | engine {l : Runtime.Label P} {runtime : Runtime.World P}
      (htenant : (tenantOf l).all validTenant = true)
      (hstep : Runtime.step s.1.runtime (engineLabel s.1.runtime l) = some runtime) :
      Effect s ({ s.1 with runtime }, s.2)
  | began {d : DrainId} {order : List String} (hnew : s.1.drains d = none)
      (hperm : order.Perm (pendingKeys s.1.runtime.db)) :
      Effect s (setDrain s.1 d (.running (pendingEvalOutbox s.1.runtime.db order) 0), s.2)
  | recorded {d : DrainId} {row : EvalOutboxPending} {rows : List EvalOutboxPending} {count : ℕ}
      {evals : EvalStore} (hdrain : s.1.drains d = some (.running (row :: rows) count))
      (hrows : s.1.evals.rows ⊆ evals.rows) (hkey : row.payload.runId ∈ evals.keys) :
      Effect s (setDrain { s.1 with evals } d (.marking (delivered row) rows count), s.2)
  | failed {d : DrainId} {row : EvalOutboxPending} {rows : List EvalOutboxPending} {count : ℕ}
      {evals : EvalStore} (hdrain : s.1.drains d = some (.running (row :: rows) count))
      (hrows : s.1.evals.rows ⊆ evals.rows) :
      Effect s (setDrain { s.1 with evals } d (.marking (retry row) rows count),
        (d, row.observationKey) :: s.2)
  | marked {d : DrainId} {m : Mark} {rows : List EvalOutboxPending} {count count' : ℕ}
      (hdrain : s.1.drains d = some (.marking m rows count))
      (hfree : s.1.runtime.writer = none) :
      Effect s (setDrain
        { s.1 with
          runtime := { s.1.runtime with db := markEvalOutbox s.1.runtime.db m } } d
        (.running rows count'), s.2)
  | crashed {d : DrainId} : Effect s (setDrain s.1 d .stopped, s.2)
  | appended {evals : EvalStore} (hrows : s.1.evals.rows ⊆ evals.rows) :
      Effect s ({ s.1 with evals }, s.2)

/-- A delivery either ends with an observation of the run, or it counts as failed. -/
theorem deliver_cases (repr : String → String) (row : EvalOutboxPending) (store : EvalStore)
    (delivery : Delivery) : store.rows ⊆ (deliver row store delivery).1.rows ∧
      ((markFor repr row (deliver row store delivery).2 = delivered row ∧
          row.payload.runId ∈ (deliver row store delivery).1.keys) ∨
        markFor repr row (deliver row store delivery).2 = retry row) := by
  cases delivery with
  | raises => exact ⟨fun _ h => h, Or.inr rfl⟩
  | appends manifest recordedAt confirmed =>
    simp only [deliver]
    split
    · rename_i e herr
      refine ⟨fun _ h => h, ?_⟩
      simp only [markFor]
      split
      · rename_i hsays
        obtain ⟨runId, rfl⟩ := (saysRecorded_iff repr e).mp hsays
        exact Or.inl ⟨rfl, mem_keys_of_alreadyRecorded herr⟩
      · exact Or.inr rfl
    · rename_i store' hok
      refine ⟨rows_subset_appendRun hok, ?_⟩
      cases confirmed with
      | true => exact Or.inl ⟨rfl, mem_keys_of_appendRun hok⟩
      | false => exact Or.inr rfl

theorem effect_of_step {repr : String → String} {s t : Logged P} {l : Label P}
    (h : (logged repr P).step s l = some t) : Effect s t := by
  obtain ⟨w, log⟩ := s
  obtain ⟨w', log'⟩ := t
  obtain ⟨hsystem, hlog⟩ := System.monitor_step.mp h
  have hstep : step repr w l = some w' := hsystem
  obtain rfl : log' = (failure repr w l).toList ++ log := hlog
  cases l with
  | engine l =>
    simp only [step] at hstep
    split at hstep
    · rename_i htenant
      obtain ⟨runtime, hruntime, rfl⟩ := Option.map_eq_some_iff.mp hstep
      exact .engine htenant hruntime
    · cases hstep
  | begin d order =>
    simp only [step] at hstep
    split at hstep
    · rename_i hnew
      split at hstep
      · rename_i hperm
        obtain rfl := Option.some.inj hstep
        exact .began hnew hperm
      · cases hstep
    · cases hstep
  | deliver d delivery =>
    simp only [step] at hstep
    split at hstep
    · rename_i row rows count hdrain
      obtain rfl := Option.some.inj hstep
      obtain ⟨hrows, ⟨hmark, hkey⟩ | hmark⟩ := deliver_cases repr row w.evals delivery
      · simp only [failure, hdrain, hmark]
        exact .recorded hdrain hrows hkey
      · simp only [failure, hdrain, hmark]
        exact .failed hdrain hrows
    · cases hstep
  | mark d =>
    simp only [step] at hstep
    split at hstep
    · rename_i m rows count hdrain
      split at hstep
      · rename_i hfree
        obtain rfl := Option.some.inj hstep
        exact .marked hdrain hfree
      · cases hstep
    · cases hstep
  | crash d =>
    simp only [step] at hstep
    split at hstep
    · obtain rfl := Option.some.inj hstep
      exact .crashed
    · obtain rfl := Option.some.inj hstep
      exact .crashed
    · cases hstep
  | append state manifest args =>
    simp only [step] at hstep
    split at hstep
    · rename_i evals hok
      obtain rfl := Option.some.inj hstep
      exact .appended (rows_subset_appendRun hok)
    · obtain rfl := Option.some.inj hstep
      exact .appended fun _ h => h

/-- What no step takes back: the rows but for their marks, the observations, the failures. -/
structure Grows (s t : Logged P) : Prop where
  outbox : ∀ key row, s.outbox.get? key = some row →
    ∃ row', t.outbox.get? key = some row' ∧ row'.runId = row.runId ∧ row'.payload = row.payload
  evals : s.1.evals.rows ⊆ t.1.evals.rows
  log : s.2 <:+ t.2

theorem Grows.refl (s : Logged P) : Grows s s :=
  ⟨fun _ row h => ⟨row, h, rfl, rfl⟩, fun _ h => h, List.suffix_refl _⟩

theorem Grows.trans {s t u : Logged P} (h : Grows s t) (h' : Grows t u) : Grows s u := by
  refine ⟨fun key row hrow => ?_, List.Subset.trans h.evals h'.evals, h.log.trans h'.log⟩
  obtain ⟨row', hrow', hrun, hpayload⟩ := h.outbox key row hrow
  obtain ⟨row'', hrow'', hrun', hpayload'⟩ := h'.outbox key row' hrow'
  exact ⟨row'', hrow'', hrun'.trans hrun, hpayload'.trans hpayload⟩

theorem Grows.failures {s t : Logged P} (h : Grows s t) (key : String) :
    failures s.2 key ≤ failures t.2 key :=
  h.log.sublist.countP_le

theorem Grows.recorded {s t : Logged P} (h : Grows s t) {run : RunId}
    (hrun : run ∈ s.1.evals.keys) : run ∈ t.1.evals.keys :=
  Runtime.mem_keys_of_subset h.evals hrun

/-- Why a row of `run` may have this status and this count of attempts. -/
structure Backed (s : Logged P) (key : String) (run : RunId) (status : DeliveryStatus)
    (attempts : ℕ) : Prop where
  failed : attempts ≤ failures s.2 key
  recorded : status = .delivered → run ∈ s.1.evals.keys
  dead : status = .dead → maxAttempts ≤ attempts

theorem Backed.mono {s t : Logged P} (h : Grows s t) {key : String} {run : RunId}
    {status : DeliveryStatus} {attempts : ℕ} (hb : Backed s key run status attempts) :
    Backed t key run status attempts :=
  ⟨le_trans hb.failed (h.failures key), fun hs => h.recorded (hb.recorded hs), hb.dead⟩

structure RowOk (s : Logged P) (key : String) (row : EvalOutboxRow) : Prop where
  tenant : validTenant row.tenantId = true
  own : key = observationKey row.tenantId row.runId row.attemptNo
  payload : row.payload.runId = row.runId
  backed : Backed s key row.runId row.status row.attempts

/-- A row that a drain has read is still there, whatever its marks are by now. -/
def Carried (s : Logged P) (item : EvalOutboxPending) : Prop :=
  ∃ row, s.outbox.get? item.observationKey = some row ∧ row.payload = item.payload ∧
    item.attempts ≤ failures s.2 item.observationKey

def MarkOk (s : Logged P) (m : Mark) : Prop :=
  ∃ row, s.outbox.get? m.observationKey = some row ∧
    Backed s m.observationKey row.runId m.status m.attempts

def Drain.rows : Drain → List EvalOutboxPending
  | .running rows _ => rows
  | .marking _ rows _ => rows
  | .stopped => []

def Drain.mark? : Drain → Option Mark
  | .marking m _ _ => some m
  | _ => none

structure DrainOk (s : Logged P) (p : Drain) : Prop where
  rows : ∀ item ∈ p.rows, Carried s item
  mark : ∀ m, p.mark? = some m → MarkOk s m

theorem Carried.mono {s t : Logged P} (h : Grows s t) {item : EvalOutboxPending}
    (hc : Carried s item) : Carried t item := by
  obtain ⟨row, hrow, hpayload, hattempts⟩ := hc
  obtain ⟨row', hrow', -, hpayload'⟩ := h.outbox _ row hrow
  exact ⟨row', hrow', hpayload'.trans hpayload, le_trans hattempts (h.failures _)⟩

theorem MarkOk.mono {s t : Logged P} (h : Grows s t) {m : Mark} (hm : MarkOk s m) :
    MarkOk t m := by
  obtain ⟨row, hrow, hb⟩ := hm
  obtain ⟨row', hrow', hrun, -⟩ := h.outbox _ row hrow
  exact ⟨row', hrow', hrun ▸ hb.mono h⟩

theorem DrainOk.mono {s t : Logged P} (h : Grows s t) {p : Drain} (hp : DrainOk s p) :
    DrainOk t p :=
  ⟨fun item hitem => (hp.rows item hitem).mono h, fun m hm => (hp.mark m hm).mono h⟩

/-- The invariant of the outbox. -/
structure Sound (s : Logged P) : Prop where
  runtime : Runtime.Inv s.1.runtime
  phases : ∀ e, PhaseOk (s.1.runtime.phase e)
  rows : ∀ key row, s.outbox.get? key = some row → RowOk s key row
  final : ∀ row ∈ s.1.runtime.db.checkpoints.rows, row.2.node = "finalize" →
    row.2.state.terminal ≠ none → ∃ tenant, validTenant tenant = true ∧
      ∃ q, s.outbox.get? (observationKey tenant row.2.state.runId row.2.state.attemptNo) = some q
  drains : ∀ d p, s.1.drains d = some p → DrainOk s p

/-- A step has to account for the rows, checkpoints and drains that it changes. -/
theorem Sound.of_grows {s t : Logged P} (hs : Sound s) (hg : Grows s t)
    (hruntime : Runtime.Inv t.1.runtime) (hphases : ∀ e, PhaseOk (t.1.runtime.phase e))
    (hrows : ∀ key row, t.outbox.get? key = some row →
      s.outbox.get? key = some row ∨ RowOk t key row)
    (hfinal : ∀ row ∈ t.1.runtime.db.checkpoints.rows, row ∈ s.1.runtime.db.checkpoints.rows ∨
      (row.2.node = "finalize" → row.2.state.terminal ≠ none → ∃ tenant,
        validTenant tenant = true ∧ ∃ q,
          t.outbox.get? (observationKey tenant row.2.state.runId row.2.state.attemptNo) = some q))
    (hdrains : ∀ d p, t.1.drains d = some p → s.1.drains d = some p ∨ DrainOk t p) : Sound t := by
  refine ⟨hruntime, hphases, fun key row hrow => ?_, fun row hrow hnode hterminal => ?_,
    fun d p hp => ?_⟩
  · rcases hrows key row hrow with hold | hnew
    · have hok := hs.rows key row hold
      exact ⟨hok.tenant, hok.own, hok.payload, hok.backed.mono hg⟩
    · exact hnew
  · rcases hfinal row hrow with hold | hnew
    · obtain ⟨tenant, htenant, q, hq⟩ := hs.final row hold hnode hterminal
      obtain ⟨q', hq', -⟩ := hg.outbox _ q hq
      exact ⟨tenant, htenant, q', hq'⟩
    · exact hnew hnode hterminal
  · rcases hdrains d p hp with hold | hnew
    · exact (hs.drains d p hold).mono hg
    · exact hnew

theorem drains_setDrain {w : World P} {d d' : DrainId} {p q : Drain}
    (h : (setDrain w d p).drains d' = some q) : (d' = d ∧ q = p) ∨ w.drains d' = some q := by
  have hupdate : Function.update w.drains d (some p) d' = some q := h
  by_cases hd : d' = d
  · rw [hd, Function.update_self] at hupdate
    exact Or.inl ⟨hd, (Option.some.inj hupdate).symm⟩
  · rw [Function.update_of_ne hd] at hupdate
    exact Or.inr hupdate

/-- A step of one drain that leaves the database as it is. -/
theorem Sound.of_drain {s : Logged P} (hs : Sound s) {d : DrainId} {p : Drain} {evals : EvalStore}
    {log : List (DrainId × String)}
    (hg : Grows s (setDrain { s.1 with evals } d p, log))
    (hp : DrainOk (setDrain { s.1 with evals } d p, log) p) :
    Sound (setDrain { s.1 with evals } d p, log) := by
  apply hs.of_grows hg hs.runtime hs.phases (fun key row hrow => Or.inl hrow)
    (fun row hrow => Or.inl hrow)
  intro d' p' hp'
  rcases drains_setDrain hp' with ⟨-, rfl⟩ | hold
  · exact Or.inr hp
  · exact Or.inl hold

theorem failures_cons (d : DrainId) (key key' : String) (log : List (DrainId × String)) :
    failures ((d, key) :: log) key' = failures log key' + if key = key' then 1 else 0 := by
  simp only [failures, List.countP_cons, decide_eq_true_eq]

/-- A drain and the observations move on. -/
theorem grows_of_drain {s : Logged P} (d : DrainId) (p : Drain) {evals : EvalStore}
    {log : List (DrainId × String)} (hrows : s.1.evals.rows ⊆ evals.rows)
    (hlog : s.2 <:+ log) :
    Grows s (setDrain { s.1 with evals } d p, log) :=
  ⟨fun _ row h => ⟨row, h, rfl, rfl⟩, hrows, hlog⟩

theorem carried_pending {s : Logged P} (hs : Sound s) (order : List String) :
    ∀ item ∈ pendingEvalOutbox s.1.runtime.db order, Carried s item := by
  intro item hitem
  obtain ⟨key, -, hmap⟩ := List.mem_filterMap.mp hitem
  obtain ⟨row, hrow, rfl⟩ := Option.map_eq_some_iff.mp hmap
  exact ⟨row, hrow, rfl, (hs.rows key row hrow).backed.failed⟩

theorem sound_began {s : Logged P} (hs : Sound s) (d : DrainId) (order : List String) :
    Sound (setDrain s.1 d (.running (pendingEvalOutbox s.1.runtime.db order) 0), s.2) := by
  have hg : Grows s
      (setDrain s.1 d (.running (pendingEvalOutbox s.1.runtime.db order) 0), s.2) :=
    grows_of_drain d _ (fun _ h => h) (List.suffix_refl _)
  apply hs.of_drain hg
  exact ⟨fun item hitem => (carried_pending hs order item hitem).mono hg, fun m hm => by cases hm⟩

/-- The first row of a drain goes into its mark, and the others stay. -/
theorem sound_delivery {s : Logged P} (hs : Sound s) {d : DrainId} {row : EvalOutboxPending}
    {rows : List EvalOutboxPending} {count : ℕ} {evals : EvalStore}
    {log : List (DrainId × String)} {m : Mark}
    (hdrain : s.1.drains d = some (.running (row :: rows) count))
    (hg : Grows s (setDrain { s.1 with evals } d (.marking m rows count), log))
    (hm : MarkOk (setDrain { s.1 with evals } d (.marking m rows count), log) m) :
    Sound (setDrain { s.1 with evals } d (.marking m rows count), log) := by
  apply hs.of_drain hg
  refine ⟨fun item hitem => ?_, fun m' hm' => ?_⟩
  · have hold := (hs.drains d _ hdrain).rows item (List.mem_cons_of_mem _ hitem)
    exact hold.mono hg
  · exact Option.some.inj hm' ▸ hm

theorem sound_recorded {s : Logged P} (hs : Sound s) {d : DrainId} {row : EvalOutboxPending}
    {rows : List EvalOutboxPending} {count : ℕ} {evals : EvalStore}
    (hdrain : s.1.drains d = some (.running (row :: rows) count))
    (hrows : s.1.evals.rows ⊆ evals.rows) (hkey : row.payload.runId ∈ evals.keys) :
    Sound (setDrain { s.1 with evals } d (.marking (delivered row) rows count), s.2) := by
  have hg : Grows s
      (setDrain { s.1 with evals } d (.marking (delivered row) rows count), s.2) :=
    grows_of_drain d _ hrows (List.suffix_refl _)
  apply sound_delivery hs hdrain hg
  obtain ⟨q, hq, hpayload, hattempts⟩ := (hs.drains d _ hdrain).rows row List.mem_cons_self
  have hrun : q.runId = row.payload.runId := by
    rw [← (hs.rows _ q hq).payload, hpayload]
  refine ⟨q, hq, hattempts, fun _ => ?_, fun hdead => by cases hdead⟩
  rw [hrun]
  exact hkey

theorem sound_failed {s : Logged P} (hs : Sound s) {d : DrainId} {row : EvalOutboxPending}
    {rows : List EvalOutboxPending} {count : ℕ} {evals : EvalStore}
    (hdrain : s.1.drains d = some (.running (row :: rows) count))
    (hrows : s.1.evals.rows ⊆ evals.rows) :
    Sound (setDrain { s.1 with evals } d (.marking (retry row) rows count),
      (d, row.observationKey) :: s.2) := by
  have hg : Grows s (setDrain { s.1 with evals } d (.marking (retry row) rows count),
      (d, row.observationKey) :: s.2) :=
    grows_of_drain d _ hrows (List.suffix_cons _ _)
  apply sound_delivery hs hdrain hg
  obtain ⟨q, hq, -, hattempts⟩ := (hs.drains d _ hdrain).rows row List.mem_cons_self
  refine ⟨q, hq, ?_, fun hdelivered => ?_, fun hdead => ?_⟩
  · -- this failure is the one that the retry counts
    have hcount : failures ((d, row.observationKey) :: s.2) row.observationKey =
        failures s.2 row.observationKey + 1 := by rw [failures_cons, if_pos rfl]
    change row.attempts + 1 ≤ failures ((d, row.observationKey) :: s.2) row.observationKey
    omega
  · simp only [retry] at hdelivered
    split at hdelivered <;> cases hdelivered
  · simp only [retry] at hdead
    split at hdead
    · assumption
    · cases hdead

theorem sound_crashed {s : Logged P} (hs : Sound s) (d : DrainId) :
    Sound (setDrain s.1 d .stopped, s.2) := by
  have hg : Grows s (setDrain s.1 d .stopped, s.2) :=
    grows_of_drain d _ (fun _ h => h) (List.suffix_refl _)
  apply hs.of_drain hg
  exact ⟨fun item hitem => (List.not_mem_nil hitem).elim, fun m hm => by cases hm⟩

theorem sound_appended {s : Logged P} (hs : Sound s) {evals : EvalStore}
    (hrows : s.1.evals.rows ⊆ evals.rows) : Sound ({ s.1 with evals }, s.2) := by
  have hg : Grows s ({ s.1 with evals }, s.2) :=
    ⟨fun _ row h => ⟨row, h, rfl, rfl⟩, hrows, List.suffix_refl _⟩
  exact hs.of_grows hg hs.runtime hs.phases (fun _ _ hrow => Or.inl hrow)
    (fun _ hrow => Or.inl hrow) fun _ _ hp => Or.inl hp

theorem get?_markEvalOutbox (db : Database P) (m : Mark) (key : String) :
    (markEvalOutbox db m).evalOutbox.get? key = (db.evalOutbox.get? key).map fun row =>
      if key = m.observationKey then { row with status := m.status, attempts := m.attempts }
      else row := by
  simp only [markEvalOutbox, Table.get?_update, decide_eq_true_eq]

/-- A mark of a drain, which finds nobody writing. -/
theorem inv_mark {w : Runtime.World P} (hi : Runtime.Inv w) (hfree : w.writer = none) (m : Mark) :
    Runtime.Inv { w with db := markEvalOutbox w.db m } := by
  refine ⟨?_, hi.follows, fun e a remaining work hphase => ?_⟩
  · exact Runtime.consistent_of_same hi.consistent (fun _ h => h) rfl rfl
  · have hwriter := (hi.writing e a remaining work hphase).1
    rw [hfree] at hwriter
    cases hwriter

/-- The rows behind a mark. -/
theorem outbox_marked {s t : Logged P} {d : DrainId} {m : Mark} {p : Drain}
    (ht : (setDrain
      { s.1 with runtime := { s.1.runtime with db := markEvalOutbox s.1.runtime.db m } } d p,
      s.2) = t) (key : String) :
    t.outbox.get? key = (s.outbox.get? key).map fun row =>
      if key = m.observationKey then { row with status := m.status, attempts := m.attempts }
      else row := by
  subst ht
  exact get?_markEvalOutbox s.1.runtime.db m key

theorem grows_marked {s t : Logged P} {d : DrainId} {m : Mark} {p : Drain}
    (ht : (setDrain
      { s.1 with runtime := { s.1.runtime with db := markEvalOutbox s.1.runtime.db m } } d p,
      s.2) = t) : Grows s t := by
  refine ⟨fun key row hrow => ?_, ?_, ?_⟩
  · rw [outbox_marked ht, hrow]
    refine ⟨_, rfl, ?_, ?_⟩
    · split <;> rfl
    · split <;> rfl
  · subst ht
    exact fun _ h => h
  · subst ht
    exact List.suffix_refl _

theorem sound_marked {s t : Logged P} (hs : Sound s) {d : DrainId} {m : Mark}
    {rows : List EvalOutboxPending} {count count' : ℕ}
    (hdrain : s.1.drains d = some (.marking m rows count))
    (hfree : s.1.runtime.writer = none)
    (ht : (setDrain
      { s.1 with runtime := { s.1.runtime with db := markEvalOutbox s.1.runtime.db m } } d
      (.running rows count'), s.2) = t) : Sound t := by
  have hg : Grows s t := grows_marked ht
  have hm : MarkOk s m := (hs.drains d _ hdrain).mark m rfl
  have hitems := (hs.drains d _ hdrain).rows
  have hruntime : Runtime.Inv t.1.runtime := by
    subst ht
    exact inv_mark hs.runtime hfree m
  apply hs.of_grows hg hruntime
  · subst ht
    exact hs.phases
  · intro key row hrow
    rw [outbox_marked ht] at hrow
    obtain ⟨old, hold, hrow⟩ := Option.map_eq_some_iff.mp hrow
    split at hrow
    · rename_i hkey
      subst hrow
      right
      have hok := hs.rows key old hold
      obtain ⟨q, hq, hb⟩ := hm
      have hqold : q = old := Option.some.inj (hq.symm.trans (hkey ▸ hold))
      rw [hqold, ← hkey] at hb
      exact ⟨hok.tenant, hok.own, hok.payload, hb.mono hg⟩
    · exact Or.inl (hrow ▸ hold)
  · subst ht
    exact fun row hrow => Or.inl hrow
  · intro d' p' hp'
    have hset : (setDrain s.1 d (.running rows count')).drains d' = some p' := by
      subst ht
      exact hp'
    rcases drains_setDrain hset with ⟨-, rfl⟩ | hold
    · exact Or.inr ⟨fun item hitem => (hitems item hitem).mono hg, fun _ hm => by cases hm⟩
    · exact Or.inl hold

/-- Hops only add rows and observations stay as they are. -/
theorem grows_engine {s : Logged P} (hs : Sound s) {l : Runtime.Label P}
    {runtime : Runtime.World P}
    (hstep : Runtime.step s.1.runtime (engineLabel s.1.runtime l) = some runtime) :
    Grows s ({ s.1 with runtime }, s.2) := by
  refine ⟨fun key row hrow => ?_, fun _ h => h, List.suffix_refl _⟩
  have hext : Runtime.Extends s.1.runtime.db runtime.db := Runtime.extends_step hs.runtime hstep
  have hmem := hext.evalOutbox (Table.get?_eq_some.mp hrow)
  exact ⟨row, Table.get?_eq_some.mpr hmem, rfl, rfl⟩

/-- The row of a hop that finishes a run is its own: no other run has its key. -/
theorem rowOk_finalRow {s : Logged P} {a : HopArgs P} (ha : Closed a) :
    RowOk s (observationKey a.tenant a.state.runId a.state.attemptNo) (finalRow a) := by
  refine ⟨ha.tenant, rfl, rfl, Nat.zero_le _, fun hstatus => ?_, fun hstatus => ?_⟩
  · cases hstatus
  · cases hstatus

theorem sound_engine {s : Logged P} (hs : Sound s) {l : Runtime.Label P}
    {runtime : Runtime.World P} (htenant : (tenantOf l).all validTenant = true)
    (hstep : Runtime.step s.1.runtime (engineLabel s.1.runtime l) = some runtime) :
    Sound ({ s.1 with runtime }, s.2) := by
  have hg := grows_engine hs hstep
  have hruntime : Runtime.Inv runtime := Runtime.inv_step hs.runtime hstep
  have hphases : ∀ e, PhaseOk (runtime.phase e) := phaseOk_step hs.phases htenant hstep
  rcases Runtime.db_step hs.runtime hstep with hdb | ⟨e, _, hlabel, -, -⟩
  · apply hs.of_grows hg hruntime hphases
    · intro key row hrow
      have hrow' : runtime.db.evalOutbox.get? key = some row := hrow
      rw [hdb] at hrow'
      exact Or.inl hrow'
    · intro row hrow
      have hrow' : row ∈ runtime.db.checkpoints.rows := hrow
      rw [hdb] at hrow'
      exact Or.inl hrow'
    · exact fun _ _ hp => Or.inl hp
  · rw [hlabel] at hstep
    obtain ⟨a, work, hphase, hinsert⟩ := Runtime.commit_step hs.runtime hstep
    have ha : Closed a := (hs.phases e).args a (by rw [hphase]; rfl)
    have hshows := Runtime.insertHop_shows hinsert
    have hqueued := evalOutbox_closed ha hinsert
    apply hs.of_grows hg hruntime hphases
    · intro key row hrow
      have hrow' : runtime.db.evalOutbox.get? key = some row := hrow
      rcases hqueued with ⟨-, hsame⟩ | hnew
      · rw [hsame] at hrow'
        exact Or.inl hrow'
      · rw [hnew, Table.get?_insertOrIgnore] at hrow'
        split at hrow'
        · rename_i hkey
          cases hold : s.1.runtime.db.evalOutbox.get?
              (observationKey a.tenant a.state.runId a.state.attemptNo) with
          | some old =>
            rw [hold, Option.getD_some] at hrow'
            exact Or.inl (hkey ▸ hold.trans hrow')
          | none =>
            rw [hold, Option.getD_none] at hrow'
            obtain rfl := Option.some.inj hrow'
            right
            rw [hkey]
            exact rowOk_finalRow ha
        · exact Or.inl hrow'
    · intro row hrow
      rcases hshows.checkpoints hrow with hold | hnew
      · exact Or.inl hold
      · right
        intro hnode hterminal
        rw [hnew] at hnode hterminal ⊢
        refine ⟨a.tenant, ha.tenant, ?_⟩
        rcases hqueued with ⟨hnot, -⟩ | henqueued
        · exact absurd ⟨hnode, hterminal⟩ hnot
        · have hkey := Table.key_mem_insertOrIgnore s.1.runtime.db.evalOutbox
            (observationKey a.tenant a.state.runId a.state.attemptNo) (finalRow a)
          rw [← henqueued] at hkey
          obtain ⟨q, hq⟩ := Table.mem_keys.mp hkey
          exact ⟨q, Table.get?_eq_some.mpr hq⟩
    · exact fun _ _ hp => Or.inl hp

/-- The invariant rule of the outbox. -/
theorem sound_effect {s t : Logged P} (hs : Sound s) (h : Effect s t) : Sound t := by
  cases h with
  | engine htenant hstep => exact sound_engine hs htenant hstep
  | began hnew hperm => exact sound_began hs _ _
  | recorded hdrain hrows hkey => exact sound_recorded hs hdrain hrows hkey
  | failed hdrain hrows => exact sound_failed hs hdrain hrows
  | marked hdrain hfree => exact sound_marked hs hdrain hfree rfl
  | crashed => exact sound_crashed hs _
  | appended hrows => exact sound_appended hs hrows

theorem grows_effect {s t : Logged P} (hs : Sound s) (h : Effect s t) : Grows s t := by
  cases h with
  | engine htenant hstep => exact grows_engine hs hstep
  | began hnew hperm => exact grows_of_drain _ _ (fun _ h => h) (List.suffix_refl _)
  | recorded hdrain hrows hkey => exact grows_of_drain _ _ hrows (List.suffix_refl _)
  | failed hdrain hrows => exact grows_of_drain _ _ hrows (List.suffix_cons _ _)
  | marked hdrain hfree => exact grows_marked rfl
  | crashed => exact grows_of_drain _ _ (fun _ h => h) (List.suffix_refl _)
  | appended hrows => exact ⟨fun _ row h => ⟨row, h, rfl, rfl⟩, hrows, List.suffix_refl _⟩

theorem sound_fresh (trajectories : RunId → List (Runtime.TrajectoryEvent P)) (evals : EvalStore) :
    Sound (World.fresh trajectories evals, []) where
  runtime := Runtime.inv_init _
  phases _ := phaseOk_idle
  rows _ _ h := by cases h
  final _ h := (List.not_mem_nil h).elim
  drains _ _ h := by cases h

/-- Behind every run the outbox is sound, and nothing that was there on the way is lost. -/
theorem sound_run {repr : String → String} {s t : Logged P} {ls : List (Label P)} (hs : Sound s)
    (h : (logged repr P).run s ls = some t) : Sound t ∧ Grows s t := by
  apply System.run_invariant (I := fun u => Sound u ∧ Grows s u) _ ⟨hs, Grows.refl s⟩ h
  intro u l v hu hstep
  have heffect := effect_of_step hstep
  exact ⟨sound_effect hu.1 heffect, hu.2.trans (grows_effect hu.1 heffect)⟩

end Recertia.Evals
