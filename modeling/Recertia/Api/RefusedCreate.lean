import Recertia.Api.RunService
import Recertia.Lib.Fallible
import Recertia.Worker.Agreement

/-! What a refused creation leaves behind: nothing where it is refused ahead of the reservation
of its run id, and the reservation at least where it is refused later. -/
namespace Recertia.Api

open Fallible

/-- The registry, the run table, the rows of the queue and the event log are the same. -/
def SameTrace (a b : Stores) : Prop :=
  a.registry = b.registry ∧ a.runs = b.runs ∧ a.queue.runQueue = b.queue.runQueue ∧
    a.events = b.events

/-- The refused call cannot be told from no call: not in the stores, and not by any later
creation, with this run id or another one. -/
def LeavesNoTrace (ctx : Context) (body : RunCreate) (headers : WaitHeaders) (stores : Stores) :
    Prop :=
  let after := (create ctx body headers stores).1
  SameTrace after stores ∧ ∀ ctx' body' headers',
    (create ctx' body' headers' after).2 = (create ctx' body' headers' stores).2 ∧
      SameTrace (create ctx' body' headers' after).1 (create ctx' body' headers' stores).1

/-- The run id that a body asks for, or a fresh one. -/
def wantedRunId (ctx : Context) (body : RunCreate) : String :=
  if body.runId.getD "" ≠ "" then body.runId.getD "" else ctx.freshRunId

/-- Everything that `create` checks up to the reservation, and the reservation itself. -/
structure Reservable (ctx : Context) (stores : Stores) (body : RunCreate) : Prop where
  ready : ctx.executionReady = true
  mayCreate : ctx.permits "runs.create" = true
  mayScript : (body.script.all List.isEmpty || ctx.permits "runs.script") = true
  model : ∃ config, ctx.modelConfigForRun body.model = some config
  wellFormed : ∃ runId, validateRunId (wantedRunId ctx body) = .ok runId
  unknown : ((stores.runs.get? (ctx.tenantId, wantedRunId ctx body)).isNone &&
    !ctx.hasCheckpoints (ctx.tenantId, wantedRunId ctx body)) = true
  workdir : ∃ resolved, ctx.resolveWorkdir (ctx.tenantId, wantedRunId ctx body) body.workdir
    body.workspaceId = some resolved
  unreserved : (ctx.tenantId, wantedRunId ctx body) ∉ stores.registry.keys

theorem refuseUnless_eq_ok {allowed : Bool} {refusal : Refusal} {u : Unit} :
    refuseUnless allowed refusal = .ok u ↔ allowed = true := by
  cases allowed <;> simp [refuseUnless]

theorem orError_eq_ok {ε α : Type} {error : ε} {o : Option α} {a : α} :
    Worker.orError error o = .ok a ↔ o = some a := by
  cases o <;> simp [Worker.orError]

theorem validateRunId_eq {runId valid : String} (h : validateRunId runId = .ok valid) :
    valid = runId := by
  unfold validateRunId at h
  split at h
  · cases h
  · split at h
    · exact (Except.ok.inj h).symm
    · cases h

theorem prepare_eq_ok {ctx : Context} {stores : Stores} {body : RunCreate} {prepared : Prepared} :
    prepare ctx stores body = .ok prepared ↔
      ctx.executionReady = true ∧ ctx.permits "runs.create" = true ∧
      (body.script.all List.isEmpty || ctx.permits "runs.script") = true ∧
      ctx.modelConfigForRun body.model = some prepared.modelConfig ∧
      validateRunId (wantedRunId ctx body) = .ok prepared.runId ∧
      ((stores.runs.get? (prepared.key ctx)).isNone && !ctx.hasCheckpoints (prepared.key ctx))
        = true ∧
      ctx.resolveWorkdir (prepared.key ctx) body.workdir body.workspaceId
        = some prepared.workdir := by
  simp only [prepare, bind_eq_ok, refuseUnless_eq_ok, orError_eq_ok, pure_eq_ok, exists_const]
  constructor
  · rintro ⟨hready, hcreate, hscript, config, hconfig, runId, hrun, hfresh, workdir, hdir, rfl⟩
    exact ⟨hready, hcreate, hscript, hconfig, hrun, hfresh, hdir⟩
  · rintro ⟨hready, hcreate, hscript, hconfig, hrun, hfresh, hdir⟩
    exact ⟨hready, hcreate, hscript, _, hconfig, _, hrun, hfresh, _, hdir, rfl⟩

/-- A body is reservable exactly when `create` gets behind its reservation. -/
theorem reservable_iff {ctx : Context} {stores : Stores} {body : RunCreate} :
    Reservable ctx stores body ↔
      ∃ prepared registry, prepare ctx stores body = .ok prepared ∧
        stores.registry.insert (prepared.key ctx) (reservation ctx body prepared) = some registry := by
  constructor
  · intro h
    obtain ⟨config, hconfig⟩ := h.model
    obtain ⟨runId, hrun⟩ := h.wellFormed
    obtain ⟨workdir, hdir⟩ := h.workdir
    obtain rfl := validateRunId_eq hrun
    let prepared : Prepared := ⟨config, wantedRunId ctx body, workdir⟩
    have hprepared : prepare ctx stores body = .ok prepared :=
      prepare_eq_ok.mpr ⟨h.ready, h.mayCreate, h.mayScript, hconfig, hrun, h.unknown, hdir⟩
    cases hinsert : stores.registry.insert (prepared.key ctx) (reservation ctx body prepared) with
    | none => exact absurd (Table.insert_eq_none.mp hinsert) h.unreserved
    | some registry => exact ⟨prepared, registry, hprepared, hinsert⟩
  · rintro ⟨prepared, registry, hprepared, hinsert⟩
    obtain ⟨hready, hcreate, hscript, hconfig, hrun, hfresh, hdir⟩ := prepare_eq_ok.mp hprepared
    have hid : prepared.runId = wantedRunId ctx body := validateRunId_eq hrun
    have hkey : prepared.key ctx = (ctx.tenantId, wantedRunId ctx body) := by
      rw [Prepared.key, hid]
    rw [hkey] at hfresh hdir
    have hnew := (Table.insert_eq_some.mp hinsert).1
    rw [hkey] at hnew
    exact ⟨hready, hcreate, hscript, ⟨_, hconfig⟩, ⟨_, hrun⟩, hfresh, ⟨_, hdir⟩, hnew⟩

/-- Behind the reservation nothing takes it back. -/
theorem enqueueRun_registry (ctx : Context) (body : RunCreate) (headers : WaitHeaders)
    (prepared : Prepared) (checked : Checked) (stores : Stores) :
    (enqueueRun ctx body headers prepared checked stores).1.registry = stores.registry := by
  unfold enqueueRun
  generalize (if ctx.apiDefaultAsync && !body.modeSet then RunMode.async else body.mode) = waitMode
  dsimp only
  split
  · rfl
  · split
    · rfl
    · split
      · rfl
      · split <;> rfl

theorem create_registry {ctx : Context} {body : RunCreate} {headers : WaitHeaders}
    {stores : Stores} {prepared : Prepared} {registry : Table RunKey RegistryRow}
    (hprepared : prepare ctx stores body = .ok prepared)
    (hinsert : stores.registry.insert (prepared.key ctx) (reservation ctx body prepared)
      = some registry) :
    (create ctx body headers stores).1.registry = registry := by
  unfold create
  rw [hprepared]
  dsimp only
  rw [hinsert]
  dsimp only
  split
  · rfl
  · exact enqueueRun_registry ..

/-- A creation that is refused ahead of its reservation writes nothing. -/
theorem create_not_reservable {ctx : Context} {body : RunCreate} {headers : WaitHeaders}
    {stores : Stores} (h : ¬ Reservable ctx stores body) :
    (create ctx body headers stores).1 = stores := by
  unfold create
  cases hprepared : prepare ctx stores body with
  | error refusal => rfl
  | ok prepared =>
    dsimp only
    cases hinsert : stores.registry.insert (prepared.key ctx) (reservation ctx body prepared) with
    | none => rfl
    | some registry => exact absurd (reservable_iff.mpr ⟨prepared, registry, hprepared, hinsert⟩) h

/-- A call leaves no trace exactly when a check ahead of the reservation of its run id refuses
it, or the reservation itself: of the refused calls, the ones that are refused any later all
leave one. -/
theorem refused_create_leaves_no_trace_iff (ctx : Context) (body : RunCreate)
    (headers : WaitHeaders) (stores : Stores) :
    LeavesNoTrace ctx body headers stores ↔ ¬ Reservable ctx stores body := by
  constructor
  · rintro ⟨⟨hregistry, -⟩, -⟩ hreservable
    obtain ⟨prepared, registry, hprepared, hinsert⟩ := reservable_iff.mp hreservable
    rw [create_registry hprepared hinsert] at hregistry
    obtain ⟨hnew, hrows⟩ := Table.insert_eq_some.mp hinsert
    rw [hregistry] at hrows
    have hlength := congrArg List.length hrows
    simp only [List.length_append, List.length_singleton] at hlength
    omega
  · intro h
    have hsame : (create ctx body headers stores).1 = stores := create_not_reservable h
    refine ⟨?_, fun ctx' body' headers' => ?_⟩
    · rw [hsame]
      exact ⟨rfl, rfl, rfl, rfl⟩
    · rw [hsame]
      exact ⟨rfl, rfl, rfl, rfl, rfl⟩

/-- An owner with a fresh allowance, on a host that refuses nothing and reads no number. -/
def openContext : Context where
  python := Worker.simplePython
  float _ := none
  tenantId := "acme"
  executionReady := true
  permits _ := true
  mayExec := true
  modelConfigForRun _ := some none
  freshRunId := "run-0"
  hasCheckpoints _ := false
  resolveWorkdir _ _ _ := some ⟨.ofStr "/srv/workspaces/acme/run-1", false⟩
  requestHash _ runId := runId
  workspaceBusy _ := false
  makesDir _ := true
  persistsWorkdir := true
  runsToday := 0
  costUsdToday := 0
  quota := {}
  eventsWritable := true
  root := .ofStr "/srv"
  skillsRoot := .ofStr "/srv/skills"
  factsRoot := .ofStr "/srv/facts"
  maxCriterionTimeoutS := 300
  apiDefaultAsync := false
  apiSyncWaitS := 25
  queueSettings := {}
  now := 0

/-- The stores of a service that has not run yet. -/
def emptyStores : Stores where
  registry := .empty
  runs := .empty
  queue := .migrated _
  events := []

def fixTheBuild : RunCreate where
  request := some "fix the build"
  runId := some "run-1"
  requireGoalOrRequest := Or.inr ⟨"fix the build", rfl, by decide⟩

/-- A creation with `X-Recertia-Wait: soon` is refused, and the retry without the header, which
is accepted where the refused call was not made, then finds its run id taken. -/
theorem unparsable_wait_keeps_run_id :
    (create openContext fixTheBuild { wait := some "soon" } emptyStores).2 = .error .invalidWait ∧
    (create openContext fixTheBuild {} emptyStores).2.isOk = true ∧
    (create openContext fixTheBuild {}
      (create openContext fixTheBuild { wait := some "soon" } emptyStores).1).2
        = .error .runIdExists ∧
    ¬ LeavesNoTrace openContext fixTheBuild { wait := some "soon" } emptyStores := by
  have hbefore : (create openContext fixTheBuild {} emptyStores).2.isOk = true := rfl
  have hafter : (create openContext fixTheBuild {}
      (create openContext fixTheBuild { wait := some "soon" } emptyStores).1).2
      = .error .runIdExists := rfl
  refine ⟨rfl, hbefore, hafter, ?_⟩
  intro h
  have hretry := (h.2 openContext fixTheBuild {}).1
  rw [← hretry, hafter] at hbefore
  cases hbefore

end Recertia.Api
