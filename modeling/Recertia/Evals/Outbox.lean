import Recertia.Evals.AppendRun
import Recertia.Lib.JsonText
import Recertia.Runtime.HopHistory

/-! The evaluation outbox: rows that commit with the final hop of a run, and any number of drains,
in any number of processes, that carry them into the eval store. -/
namespace Recertia.Evals

open Graph (RunState)
open Recertia.Runtime (TenantId RunId Database DeliveryStatus EvalOutboxRow EvalOutboxWrite
  HopArgs TrajectoryEvent insertHop)
open Transition

/-- `^[A-Za-z0-9][A-Za-z0-9_-]{0,63}$` -/
def validTenant (tenant : TenantId) : Bool :=
  match tenant.toList with
  | [] => false
  | c :: cs => c.isAlphanum && cs.all (fun d => d.isAlphanum || d = '_' || d = '-') &&
      decide (cs.length ≤ 63)

def observationKey (tenant : TenantId) (run : RunId) (attemptNo : ℕ) : String :=
  tenant ++ "/" ++ run ++ "/" ++ toString attemptNo

/-- `_eval_outbox` -/
def evalOutbox (tenant : TenantId) (state : RunState) : Option EvalOutboxWrite :=
  match state.terminal with
  | none => none
  | some _ => some
    { observationKey := observationKey tenant state.runId state.attemptNo
      tenantId := tenant, runId := state.runId, attemptNo := state.attemptNo, payload := state }

structure EvalOutboxPending where
  observationKey : String
  payload : RunState
  attempts : ℕ

/-- `_MAX_ATTEMPTS` -/
def maxAttempts : ℕ := 8

variable {P : Type*}

def pendingKeys (db : Database P) : List String :=
  (db.evalOutbox.rows.filter fun row => row.2.status = .pending).map Prod.fst

/-- `pending_eval_outbox`. The column `created_at` is not modelled, so the rows come in any
order. -/
def pendingEvalOutbox (db : Database P) (order : List String) : List EvalOutboxPending :=
  order.filterMap fun key => (db.evalOutbox.get? key).map fun row =>
    { observationKey := key, payload := row.payload, attempts := row.attempts }

/-- The arguments of `mark_eval_outbox`, and whether the caller counts the row as delivered. -/
structure Mark where
  observationKey : String
  status : DeliveryStatus
  attempts : ℕ
  counted : Bool

def markEvalOutbox (db : Database P) (m : Mark) : Database P :=
  { db with
    evalOutbox := db.evalOutbox.update (fun key _ => key = m.observationKey) fun row =>
      { row with status := m.status, attempts := m.attempts } }

/-- `_retry` -/
def retry (row : EvalOutboxPending) : Mark where
  observationKey := row.observationKey
  status := if maxAttempts ≤ row.attempts + 1 then .dead else .pending
  attempts := row.attempts + 1
  counted := false

def delivered (row : EvalOutboxPending) : Mark where
  observationKey := row.observationKey
  status := .delivered
  attempts := row.attempts
  counted := true

/-- What the `try` block of the drain raises. -/
inductive DeliveryError
  | observation (e : ObservationError)
  | other

def markFor (repr : String → String) (row : EvalOutboxPending) : Except DeliveryError Unit → Mark
  | .ok () => delivered row
  | .error (.observation e) => if e.saysRecorded repr then delivered row else retry row
  | .error .other => retry row

/-- What the environment makes of one delivery. -/
inductive Delivery
  /-- The payload does not parse, it makes no observation, or the eval store is out of reach. -/
  | raises
  /-- `append_run` reaches its end; only where `confirmed` does the commit of an insert return. -/
  | appends (manifest : Manifest) (recordedAt : String) (confirmed : Bool)

/-- The `try` block. -/
def deliver (row : EvalOutboxPending) (store : EvalStore) :
    Delivery → EvalStore × Except DeliveryError Unit
  | .raises => (store, .error .other)
  | .appends manifest recordedAt confirmed =>
    match appendRun row.payload manifest { recordedAt } store with
    | .error e => (store, .error (.observation e))
    | .ok store => (store, if confirmed then .ok () else .error .other)

abbrev DrainId := ℕ

/-- A call of `drain_eval_outbox` with the rows it still has to go through and its count. -/
inductive Drain
  | running (rows : List EvalOutboxPending) (count : ℕ)
  | marking (m : Mark) (rows : List EvalOutboxPending) (count : ℕ)
  /-- An exception or the end of its process. -/
  | stopped

structure World (P : Type*) where
  runtime : Runtime.World P
  evals : EvalStore
  drains : DrainId → Option Drain

inductive Label (P : Type*)
  | engine (l : Runtime.Label P)
  | begin (d : DrainId) (order : List String)
  | deliver (d : DrainId) (delivery : Delivery)
  | mark (d : DrainId)
  | crash (d : DrainId)
  /-- The other callers of `append_run`: golden runs, shadow reviews, faithfulness probes. -/
  | append (state : RunState) (manifest : Manifest) (args : AppendArgs)

/-- The final hop has no next node, no route and the outbox row of its state; no other hop has a
row. -/
def closeHop (loop : Runtime.Loop) (r : Runtime.HopResult P) : Runtime.HopResult P :=
  if loop.node = "finalize" then
    { r with nextNode := none, routeEntry := none, evalOutbox := evalOutbox loop.tenant r.state }
  else { r with evalOutbox := none }

def engineLabel (w : Runtime.World P) : Runtime.Label P → Runtime.Label P
  | .hop e r =>
    match w.phase e with
    | .ready loop => .hop e (closeHop loop r)
    | _ => .hop e r
  | l => l

/-- The tenant that an orchestrator is opened for. -/
def tenantOf : Runtime.Label P → Option TenantId
  | .start _ tenant _ _ => some tenant
  | .resume _ tenant _ _ => some tenant
  | _ => none

def setDrain (w : World P) (d : DrainId) (p : Drain) : World P :=
  { w with drains := Function.update w.drains d (some p) }

def step (repr : String → String) (w : World P) : Label P → Option (World P)
  | .engine l =>
    if (tenantOf l).all validTenant then
      (Runtime.step w.runtime (engineLabel w.runtime l)).map fun runtime => { w with runtime }
    else none
  | .begin d order =>
    match w.drains d with
    | none =>
      if order.Perm (pendingKeys w.runtime.db) then
        some (setDrain w d (.running (pendingEvalOutbox w.runtime.db order) 0))
      else none
    | some _ => none
  | .deliver d delivery =>
    match w.drains d with
    | some (.running (row :: rows) count) =>
      let (evals, result) := deliver row w.evals delivery
      some (setDrain { w with evals } d (.marking (markFor repr row result) rows count))
    | _ => none
  | .mark d =>
    match w.drains d with
    | some (.marking m rows count) =>
      -- The update waits for the write lock of the database; where it gives up, it raises.
      match w.runtime.writer with
      | none =>
        let runtime := { w.runtime with db := markEvalOutbox w.runtime.db m }
        some (setDrain { w with runtime } d
          (.running rows (if m.counted then count + 1 else count)))
      | some _ => none
    | _ => none
  | .crash d =>
    match w.drains d with
    | some (.running (_ :: _) _) | some (.marking _ _ _) => some (setDrain w d .stopped)
    | _ => none
  | .append state manifest args =>
    match appendRun state manifest args w.evals with
    | .ok evals => some { w with evals }
    | .error _ => some w

def system (repr : String → String) (P : Type*) : System (World P) (Label P) := ⟨step repr⟩

/-- The delivery that fails in a step, by its drain and its row. -/
def failure (repr : String → String) (w : World P) : Label P → Option (DrainId × String)
  | .deliver d delivery =>
    match w.drains d with
    | some (.running (row :: _) _) =>
      if (markFor repr row (deliver row w.evals delivery).2).counted then none
      else some (d, row.observationKey)
    | _ => none
  | _ => none

/-- The system with the list of its failed deliveries. -/
def logged (repr : String → String) (P : Type*) :
    System (World P × List (DrainId × String)) (Label P) :=
  (system repr P).monitor fun w l _ failures => (failure repr w l).toList ++ failures

/-- A new database. There may be trajectory files and observations already. -/
def World.fresh (trajectories : RunId → List (TrajectoryEvent P)) (evals : EvalStore) :
    World P where
  runtime := Runtime.Legacy.world
    { checkpoints := Table.empty, runSummaries := Table.empty, evalOutbox := Table.empty
      trajectoryMeta := Table.empty, outbox := Table.empty, trajectories }
  evals
  drains _ := none

namespace World

/-- `run` has committed its final hop. -/
def Finalized (w : World P) (run : RunId) : Prop :=
  ∃ row ∈ w.runtime.db.checkpoints.rows, row.2.node = "finalize" ∧ row.2.state.terminal ≠ none ∧
    row.2.state.runId = run

/-- The outbox has a row of `run` under `key`. -/
def Queued (w : World P) (key : String) (run : RunId) : Prop :=
  ∃ row, w.runtime.db.evalOutbox.get? key = some row ∧ row.runId = run

def status (w : World P) (key : String) : Option DeliveryStatus :=
  (w.runtime.db.evalOutbox.get? key).map EvalOutboxRow.status

/-- `SELECT COUNT(*) FROM observations WHERE run_id = ?` -/
def observations (w : World P) (run : RunId) : ℕ := w.evals.count fun runId _ => runId = run

/-- The call has come to the end of its rows. -/
def Returned (w : World P) (d : DrainId) : Prop := ∃ count, w.drains d = some (.running [] count)

end World

/-- How often the delivery of a row failed. -/
def failures (log : List (DrainId × String)) (key : String) : ℕ :=
  log.countP fun failure => failure.2 = key

/-! The rows that hops put into the evaluation outbox: their keys, and the hops that carry one. -/

theorem slash_notMem_tenant {tenant : TenantId} (h : validTenant tenant = true) :
    '/' ∉ tenant.toList := by
  unfold validTenant at h
  split at h
  · cases h
  · rename_i c cs hchars
    rw [Bool.and_eq_true, Bool.and_eq_true] at h
    rw [hchars]
    intro hmem
    rcases List.mem_cons.mp hmem with rfl | hmem
    · exact absurd h.1.1 (by decide)
    · exact absurd (List.all_eq_true.mp h.1.2 '/' hmem) (by decide)

theorem slash_notMem_repr (n : ℕ) : '/' ∉ (toString n).toList := by
  intro h
  rw [show toString n = Nat.repr n from rfl, Nat.toList_repr] at h
  exact absurd (Nat.isDigit_of_mem_toDigits (by decide) (by decide) h) (by decide)

/-- The key is read back from its ends, so the run id in its middle may be any text. -/
theorem observationKey_inj {tenant tenant' : TenantId} {run run' : RunId} {n n' : ℕ}
    (ht : validTenant tenant = true) (ht' : validTenant tenant' = true)
    (h : observationKey tenant run n = observationKey tenant' run' n') :
    tenant = tenant' ∧ run = run' ∧ n = n' := by
  have hchars := congrArg String.toList h
  simp only [observationKey, String.toList_append, List.append_assoc] at hchars
  obtain ⟨htenant, htail⟩ :=
    Text.append_sep_inj (slash_notMem_tenant ht) (slash_notMem_tenant ht') hchars
  have hrest : run.toList ++ '/' :: (toString n).toList =
      run'.toList ++ '/' :: (toString n').toList := htail
  -- The last slash of the rest is the first one of its reverse.
  have hreverse := congrArg List.reverse hrest
  simp only [List.reverse_append, List.reverse_cons, List.append_assoc,
    List.singleton_append] at hreverse
  obtain ⟨hn, hrun⟩ := Text.append_sep_inj
    (fun hm => slash_notMem_repr n (List.mem_reverse.mp hm))
    (fun hm => slash_notMem_repr n' (List.mem_reverse.mp hm)) hreverse
  exact ⟨String.toList_inj.mp htenant, String.toList_inj.mp (List.reverse_injective hrun),
    Json.natRepr_inj (String.toList_inj.mp (List.reverse_injective hn))⟩

/-- A hop as the engine makes it: a final hop has the outbox row of its state, and only that. -/
structure Closed (a : HopArgs P) : Prop where
  tenant : validTenant a.tenant = true
  final : a.node = "finalize" → a.evalOutbox = evalOutbox a.tenant a.state
  other : a.node ≠ "finalize" → a.evalOutbox = none

/-- The tenant of an orchestrator's loop. -/
def phaseTenant : Runtime.Phase P → Option TenantId
  | .starting tenant _ _ => some tenant
  | .ready loop => some loop.tenant
  | _ => none

def phaseArgs : Runtime.Phase P → Option (HopArgs P)
  | .saving a => some a
  | .writing a _ _ => some a
  | .committed a => some a
  | _ => none

structure PhaseOk (p : Runtime.Phase P) : Prop where
  tenant : ∀ tenant, phaseTenant p = some tenant → validTenant tenant = true
  args : ∀ a, phaseArgs p = some a → Closed a

theorem phaseOk_idle : PhaseOk (Runtime.Phase.idle : Runtime.Phase P) where
  tenant _ h := by cases h
  args _ h := by cases h

theorem phaseOk_of_tenant {p : Runtime.Phase P} {tenant : TenantId} (h : validTenant tenant = true)
    (htenant : phaseTenant p = some tenant) (hargs : phaseArgs p = none) : PhaseOk p where
  tenant t ht := Option.some.inj (htenant.symm.trans ht) ▸ h
  args _ ha := by
    rw [hargs] at ha
    cases ha

theorem phaseOk_of_args {p : Runtime.Phase P} {a : HopArgs P} (h : Closed a)
    (htenant : phaseTenant p = none) (hargs : phaseArgs p = some a) : PhaseOk p where
  tenant _ ht := by
    rw [htenant] at ht
    cases ht
  args _ ha := Option.some.inj (hargs.symm.trans ha) ▸ h

theorem closed_hopArgs {w : Runtime.World P} {loop : Runtime.Loop} (r : Runtime.HopResult P)
    (h : validTenant loop.tenant = true) : Closed (Runtime.hopArgs w loop (closeHop loop r)) := by
  refine ⟨h, fun hnode => ?_, fun hnode => ?_⟩
  · have hnode' : loop.node = "finalize" := hnode
    simp only [Runtime.hopArgs, closeHop, if_pos hnode']
  · have hnode' : loop.node ≠ "finalize" := hnode
    simp only [Runtime.hopArgs, closeHop, if_neg hnode']

theorem phaseOk_update {w w' : Runtime.World P} {e : Runtime.EngineId} {p : Runtime.Phase P}
    (hw : ∀ e, PhaseOk (w.phase e)) (hp : PhaseOk p)
    (hphase : w'.phase = Function.update w.phase e p) (d : Runtime.EngineId) :
    PhaseOk (w'.phase d) := by
  rw [hphase]
  by_cases hde : d = e
  · rw [hde, Function.update_self]
    exact hp
  · rw [Function.update_of_ne hde]
    exact hw d

theorem phaseOk_resumed {db : Database P} {tenant : TenantId} (run : RunId)
    (h : validTenant tenant = true) : PhaseOk (Runtime.resumed db tenant run) := by
  unfold Runtime.resumed
  split
  · exact phaseOk_idle
  · split
    · exact phaseOk_idle
    · exact phaseOk_of_tenant h rfl rfl

theorem phaseOk_nextTurn {a : HopArgs P} (h : Closed a) : PhaseOk (Runtime.nextTurn a) := by
  unfold Runtime.nextTurn
  split
  · exact phaseOk_idle
  · exact phaseOk_of_tenant h.tenant rfl rfl

theorem tenantOf_engineLabel (w : Runtime.World P) (l : Runtime.Label P) :
    tenantOf (engineLabel w l) = tenantOf l := by
  cases l with
  | hop e r =>
    simp only [engineLabel]
    split <;> rfl
  | _ => rfl

theorem engineLabel_hop {w : Runtime.World P} {l : Runtime.Label P} {e : Runtime.EngineId}
    {loop : Runtime.Loop} {r : Runtime.HopResult P} (hphase : w.phase e = .ready loop)
    (h : engineLabel w l = .hop e r) : ∃ r', r = closeHop loop r' := by
  cases l with
  | hop d r' =>
    cases hd : w.phase d with
    | ready loop' =>
      simp only [engineLabel, hd] at h
      obtain ⟨rfl, rfl⟩ := Runtime.Label.hop.inj h
      obtain rfl := Runtime.Phase.ready.inj (hd.symm.trans hphase)
      exact ⟨r', rfl⟩
    | idle | starting _ _ _ | saving _ | writing _ _ _ | committed _ =>
      simp only [engineLabel, hd] at h
      obtain ⟨rfl, rfl⟩ := Runtime.Label.hop.inj h
      rw [hd] at hphase
      cases hphase
  | _ => cases h

/-- The engine keeps its hops closed. -/
theorem phaseOk_step {w w' : Runtime.World P} {l : Runtime.Label P}
    (hw : ∀ e, PhaseOk (w.phase e)) (hl : (tenantOf l).all validTenant = true)
    (h : Runtime.step w (engineLabel w l) = some w') (d : Runtime.EngineId) :
    PhaseOk (w'.phase d) := by
  rw [← tenantOf_engineLabel w] at hl
  have htenant {e : Runtime.EngineId} {tenant : TenantId}
      (ht : phaseTenant (w.phase e) = some tenant) : validTenant tenant = true :=
    (hw e).tenant tenant ht
  have hargs {e : Runtime.EngineId} {a : HopArgs P} (ha : phaseArgs (w.phase e) = some a) :
      Closed a := (hw e).args a ha
  generalize hlabel : engineLabel w l = label at h hl
  cases Runtime.moves_of_step h with
  | refused => exact hw d
  | started => exact phaseOk_update hw (phaseOk_of_tenant hl rfl rfl) rfl d
  | entered hphase =>
    have ht := htenant (by rw [hphase]; rfl)
    exact phaseOk_update hw (phaseOk_of_tenant ht rfl rfl) rfl d
  | resumed =>
    exact phaseOk_update hw (phaseOk_resumed _ hl) (Runtime.setPhase_syncProjection ..) d
  | hopped hphase =>
    obtain ⟨result, rfl⟩ := engineLabel_hop hphase hlabel
    have ht := htenant (by rw [hphase]; rfl)
    exact phaseOk_update hw (phaseOk_of_args (closed_hopArgs result ht) rfl rfl) rfl d
  | begun hphase | wrote hphase | committed hphase =>
    have ha := hargs (by rw [hphase]; rfl)
    exact phaseOk_update hw (phaseOk_of_args ha rfl rfl) rfl d
  | finished hphase =>
    have ha := hargs (by rw [hphase]; rfl)
    exact phaseOk_update hw (phaseOk_nextTurn ha) (Runtime.setPhase_syncProjection ..) d
  | fenced | failed | paused | crashed => exact phaseOk_update hw phaseOk_idle rfl d

/-- The new row of a hop that finishes a run. -/
def finalRow (a : HopArgs P) : Runtime.EvalOutboxRow where
  tenantId := a.tenant
  runId := a.state.runId
  attemptNo := a.state.attemptNo
  payload := a.state

/-- A closed hop queues a row exactly where it finishes its run. -/
theorem evalOutbox_closed {a : HopArgs P} {db db' : Database P} (ha : Closed a)
    (h : insertHop a db = some db') :
    (¬ (a.node = "finalize" ∧ a.state.terminal ≠ none) ∧ db'.evalOutbox = db.evalOutbox) ∨
      db'.evalOutbox = db.evalOutbox.insertOrIgnore
        (observationKey a.tenant a.state.runId a.state.attemptNo) (finalRow a) := by
  by_cases hnode : a.node = "finalize"
  · have hfinal := ha.final hnode
    cases hterminal : a.state.terminal with
    | none =>
      have hnone : a.evalOutbox = none := by rw [hfinal, evalOutbox, hterminal]
      exact Or.inl ⟨fun hne => hne.2 rfl, Runtime.evalOutbox_of_none h hnone⟩
    | some terminal =>
      right
      simp only [evalOutbox, hterminal] at hfinal
      exact Runtime.evalOutbox_of_some h hfinal
  · exact Or.inl ⟨fun hne => hnode hne.1, Runtime.evalOutbox_of_none h (ha.other hnode)⟩

end Recertia.Evals
