import Recertia.Api.RefusedCreate
import Recertia.Queue.RowStep
import Recertia.Engine.Continue
import Recertia.Engine.Honest

/-! `RunService.resume`: the request that it enqueues for a run, and how the run goes on when the
worker of the API process takes that request up. -/
namespace Recertia.Api

open PosixPath (PurePath)
open FileTree (Tree)
open Worker (AsyncRunRequest AsyncRunWorker.run Orchestrator RunStore Entry)
open Graph (NodeContext NodeError Platform SolvePath World)
open Fallible

/-- What `resume` finds on the disk. -/
structure Found where
  /-- `load_persisted_workdir`; nothing where it raises -/
  persistedWorkdir : RunKey → Option (Option PurePath)
  pathExists : PurePath → Bool

inductive ResumeRefusal
  | runBusy (status : Queue.Status)
  | workdirUnavailable
  | workdirNotFound
  | refused (refusal : Refusal)
  deriving DecidableEq, Repr

def canonicalRunWorkdir (root : PurePath) (key : RunKey) : PurePath :=
  ((root.join "workspaces").join key.1).join key.2

/-- `{"queued", "claimed", "running"}` -/
def isBusy (status : Queue.Status) : Bool := status == .queued || status.inFlight

def checkIdle (row : Option (Queue.Row Json.PyDict)) : Except ResumeRefusal Unit :=
  match row with
  | none => .ok ()
  | some row => if isBusy row.status then .error (.runBusy row.status) else .ok ()

def findWorkdir (ctx : Context) (found : Found) (key : RunKey) : Except ResumeRefusal PurePath :=
  match found.persistedWorkdir key with
  | none => .error .workdirUnavailable
  | some persisted =>
    let workdir := persisted.getD (canonicalRunWorkdir ctx.root key)
    if !found.pathExists workdir then .error .workdirNotFound
    else if ctx.workspaceBusy workdir then .error (.refused .workspaceBusy)
    else .ok workdir

/-- `resume` up to `_enqueue_run`: the run id and the working directory. -/
def takeUp (ctx : Context) (found : Found) (runId : String) (stores : Stores) :
    Except ResumeRefusal (String × PurePath) := do
  let _ ← (refuseUnless ctx.executionReady .sandboxError).mapError .refused
  let _ ← (refuseUnless (ctx.permits "runs.resume") (.forbidden "runs.resume")).mapError .refused
  let runId ← (validateRunId runId).mapError .refused
  let _ ← checkIdle (stores.queue.runQueue.get? ⟨ctx.tenantId, runId, "run"⟩)
  let workdir ← findWorkdir ctx found (ctx.tenantId, runId)
  return (runId, workdir)

/-- The request that `enqueue_async_run` dumps for a resume: of the run it has what the record
in memory says, and the working directory. -/
def resumeRequest (ctx : Context) (runId : String) (existing : Option RunRecord)
    (workdir : PurePath) : AsyncRunRequest :=
  let runsRoot := (ctx.root.join "runs").join ctx.tenantId
  { runId
    tenantId := ctx.tenantId
    goal := none
    request := existing.bind (·.request)
    taskClass := some (Worker.textOrElse ((existing.map (·.taskClass)).getD "") "repo-chore")
    criteria := []
    budget := default
    workdir
    script := none
    arm := .treatment
    approveTools := ctx.mayExec
    skillsRoot := ctx.skillsRoot
    factsRoot := ctx.factsRoot
    runsRoot
    indexPath := runsRoot.join "skill_index.db"
    modelConfig := none
    maxCriterionTimeoutS := some ctx.maxCriterionTimeoutS
    mode := "sync"
    action := "resume" }

/-- `_enqueue_run` of a resume, up to the enqueue. -/
def enqueueResume (ctx : Context) (runId : String) (workdir : PurePath) (stores : Stores) :
    Stores × Except Refusal Accepted :=
  let key : RunKey := (ctx.tenantId, runId)
  let existing := stores.runs.get? key
  let waitMode := if ctx.apiDefaultAsync then RunMode.async else .sync
  match waitSeconds ctx.float {} waitMode ctx.apiSyncWaitS with
  | .error refusal => (stores, .error refusal)
  | .ok wait =>
    let queue := stores.queue.ensureTenant ctx.queueSettings ctx.tenantId
    match admitRun ctx queue with
    | .error refusal => ({ stores with queue }, .error refusal)
    | .ok _ =>
      let taskClass := Worker.textOrElse ((existing.map (·.taskClass)).getD "") "repo-chore"
      let record : RunRecord :=
        { runId
          request := existing.bind (·.request)
          taskClass
          status := "queued"
          createdAt := ctx.now
          tenantId := ctx.tenantId
          mode := some "sync"
          workspaceId := existing.bind (·.workspaceId)
          workdir := some workdir.str }
      let runs := stores.runs.upsert key record fun _ => record
      if !ctx.eventsWritable then ({ stores with queue, runs }, .error .osError)
      else
        let event : RunEvent := ⟨ctx.tenantId, runId, "run.queued",
          [("mode", "sync"), ("action", "resume")]⟩
        let events := stores.events ++ [event]
        let item := Worker.queueItem ctx.python (resumeRequest ctx runId existing workdir)
        let (queue, enqueued) := queue.enqueue ctx.queueSettings ctx.now item true
        match enqueued with
        | .error error => ({ stores with queue, runs, events }, .error (.queueError error))
        | .ok _ => ({ stores with queue, runs, events }, .ok ⟨runId, taskClass, wait⟩)

/-- `RunService.resume` up to the enqueue. -/
def resume (ctx : Context) (found : Found) (runId : String) (stores : Stores) :
    Stores × Except ResumeRefusal Accepted :=
  match takeUp ctx found runId stores with
  | .error refusal => (stores, .error refusal)
  | .ok (runId, workdir) =>
    let answer := enqueueResume ctx runId workdir stores
    (answer.1, answer.2.mapError .refused)

/-- What the environment answers the hops of a run: it depends on how the orchestrator is wired,
and what authoring finds on the commands of the script, too. -/
structure Environment where
  py : Platform
  answers : Orchestrator → ℕ → NodeContext
  authored : Orchestrator → ℕ → List String → Except NodeError Graph.Authored

/-- The context of each hop of a run that the orchestrator was entered for. -/
def Environment.contexts (env : Environment) (entry : Entry) (j : ℕ) : NodeContext :=
  (env.answers entry.orchestrator j).withScript entry.script
    (env.authored entry.orchestrator j (entry.script.getD []))

/-- The task of the graph: of the goal it reads the part that compiles. -/
def graphTask (task : Worker.Task) : Graph.Task where
  goal := task.goal.map Worker.Goal.toGoal
  request := task.request
  taskClass := task.taskClass
  requireGoalOrRequest := by
    rw [Option.isSome_map]
    exact task.requireGoalOrRequest

/-- What an entered orchestrator hands to `intake` of a new run. -/
def startOf (entry : Entry) (runId : String) (workdir : Tree) : Graph.Start where
  runId
  task := graphTask entry.state.task
  criteria := entry.state.criteria
  budget := entry.state.budget
  arm := entry.state.arm
  workdir

/-- A run that `create` has accepted and that the worker has started. -/
structure ApiRun where
  ctx : Context
  stores : Stores
  body : RunCreate
  headers : WaitHeaders
  accepted : Accepted
  prepared : Prepared
  checked : Checked
  host : Worker.Host
  runs : RunStore
  entry : Entry
  workdir : Tree
  created : (create ctx body headers stores).2 = .ok accepted
  prepares : prepare ctx stores body = .ok prepared
  checks : check ctx body prepared = .ok checked
  entered : AsyncRunWorker.run host runs (asyncRequest ctx body prepared checked) = .ok entry
  fresh : entry.decision = .start

namespace ApiRun

variable (run : ApiRun) (env : Environment)

def key : RunKey := (run.ctx.tenantId, run.prepared.runId)

/-- The run after `k` hops. -/
def world (k : ℕ) : World :=
  Graph.executeFrom env.py (env.contexts run.entry)
    (Graph.start (startOf run.entry run.prepared.runId run.workdir)) k

/-- The solve paths of its first `k` hops. -/
def paths (k : ℕ) : List (Except NodeError SolvePath) :=
  Graph.solvePaths env.py (env.contexts run.entry)
    (Graph.start (startOf run.entry run.prepared.runId run.workdir)) k

/-- The checkpoints that a process finds after `k` hops of the run. -/
def checkpoints (k : ℕ) : RunStore := fun root runId =>
  if root = run.entry.orchestrator.runsRoot ∧ runId = run.prepared.runId then
    if (run.world env k).state.routeLog = [] then none
    else some { run.entry.state with criteria := (run.world env k).state.criteria }
  else run.runs root runId

end ApiRun

/-- A run that is paused or killed behind its `k`-th checkpoint and resumed by a principal of its
tenant. The working directory is as the checkpoint left it. -/
structure Interruption (run : ApiRun) (env : Environment) (k : ℕ) where
  ctx : Context
  found : Found
  stores : Stores
  disk : PurePath → Tree
  tenant : ctx.tenantId = run.ctx.tenantId
  root : ctx.root = run.ctx.root
  running : (run.world env k).halted = none
  kept : disk run.entry.workdir = (run.world env k).workdir

/-- The request that the resume of an interrupted run enqueues. -/
def Interruption.request {run : ApiRun} {env : Environment} {k : ℕ} (i : Interruption run env k)
    (workdir : PurePath) : AsyncRunRequest :=
  resumeRequest i.ctx run.prepared.runId (i.stores.runs.get? run.key) workdir

/-- A resume that is accepted is carried out: its request is in the queue, the worker enters the
orchestrator with it behind the last checkpoint, and the run goes on along the solve paths that it
would have taken, to the terminal that it would have reached. -/
def Continues {run : ApiRun} {env : Environment} {k : ℕ} (i : Interruption run env k) : Prop :=
  ∀ accepted, (resume i.ctx i.found run.prepared.runId i.stores).2 = .ok accepted →
    ∃ workdir entry w,
      (∃ row ∈ (resume i.ctx i.found run.prepared.runId i.stores).1.queue.runQueue.get?
          ⟨i.ctx.tenantId, run.prepared.runId, "run"⟩,
        row.payload = Worker.dumpAsyncRequest i.ctx.python (i.request workdir)) ∧
      AsyncRunWorker.run run.host (run.checkpoints env k) (i.request workdir) = .ok entry ∧
      entry.decision = .resume ∧
      Graph.resume (run.world env k) (i.disk entry.workdir) = some w ∧
      ∀ n,
        run.paths env (k + n) = run.paths env k ++
          Graph.solvePaths env.py (fun j => env.contexts entry (k + j)) w n ∧
        (run.world env (k + n)).state.terminal =
          (Graph.executeFrom env.py (fun j => env.contexts entry (k + j)) w n).state.terminal

/-- Nothing of the run is lost between its checkpoint and the queue. -/
structure Carried {run : ApiRun} {env : Environment} {k : ℕ} (i : Interruption run env k) :
    Prop where
  checkpointed : 0 < k
  described : ∃ record ∈ i.stores.runs.get? run.key,
    ∃ text ∈ record.request, Text.strip text ≠ ""
  workdir : ∀ persisted ∈ i.found.persistedWorkdir run.key,
    persisted.getD (canonicalRunWorkdir i.ctx.root run.key) = run.prepared.workdir.path
  settings : ∃ orchestrator,
    Worker.AsyncRunWorker.orchestrator run.host (i.request run.prepared.workdir.path)
      = .ok orchestrator ∧
    ∀ j, k ≤ j → env.answers orchestrator j = env.answers run.entry.orchestrator j ∧
      env.authored orchestrator j [] = env.authored run.entry.orchestrator j []
  unread : Graph.ScriptUnread env.py (fun j => env.contexts run.entry (k + j)) (run.world env k)
  unvalved : Graph.Unvalved env.py (fun j => env.contexts run.entry (k + j)) (run.world env k)

theorem mapError_eq_ok {ε ε' α : Type} {f : ε → ε'} {x : Except ε α} {a : α} :
    x.mapError f = .ok a ↔ x = .ok a := by
  cases x <;> simp [Except.mapError]

theorem findWorkdir_eq_ok {ctx : Context} {found : Found} {key : RunKey} {workdir : PurePath}
    (h : findWorkdir ctx found key = .ok workdir) :
    ∃ persisted ∈ found.persistedWorkdir key,
      workdir = persisted.getD (canonicalRunWorkdir ctx.root key) := by
  unfold findWorkdir at h
  split at h
  · cases h
  · rename_i persisted hpersisted
    dsimp only at h
    split at h
    · cases h
    · split at h
      · cases h
      · exact ⟨persisted, hpersisted, (Except.ok.inj h).symm⟩

/-- A call of `enqueue` that returns leaves the payload of its item in the queue. -/
theorem enqueue_payload {cfg : Queue.Settings} {now : Int} {item : Queue.QueueItem Json.PyDict}
    {replaceTerminal : Bool} {db db' : Queue.Db Json.PyDict}
    (h : db.enqueue cfg now item replaceTerminal = (db', .ok ())) :
    ∃ row ∈ db'.runQueue.get? item.key, row.payload = item.payload := by
  rcases Queue.enqueue_cases cfg now item replaceTerminal db with ⟨e, he, -⟩ | ⟨put, hput, heq⟩
  · rw [h] at he
    cases he
  · rw [h] at heq
    obtain rfl : db' = put := congrArg Prod.fst heq
    rcases Queue.put_ok hput with ⟨hnone, hdb⟩ | ⟨old, hold, -, -, hdb⟩
    · refine ⟨item.row cfg now, ?_, rfl⟩
      rw [hdb, Option.mem_def, Table.get?_insertOrIgnore, if_pos rfl, hnone, Option.getD_none]
    · refine ⟨Queue.replaced (item.row cfg now) old, ?_, rfl⟩
      rw [hdb, Option.mem_def, Table.get?_update, hold, Option.map_some]
      simp

theorem enqueueResume_payload {ctx : Context} {runId : String} {workdir : PurePath}
    {stores : Stores} {accepted : Accepted}
    (h : (enqueueResume ctx runId workdir stores).2 = .ok accepted) :
    ∃ row ∈ (enqueueResume ctx runId workdir stores).1.queue.runQueue.get?
        ⟨ctx.tenantId, runId, "run"⟩,
      row.payload = Worker.dumpAsyncRequest ctx.python
        (resumeRequest ctx runId (stores.runs.get? (ctx.tenantId, runId)) workdir) := by
  revert h
  unfold enqueueResume
  dsimp only
  generalize (if ctx.apiDefaultAsync = true then RunMode.async else RunMode.sync) = waitMode
  split
  · intro h
    cases h
  · split
    · intro h
      cases h
    · split
      · intro h
        cases h
      · split
        · intro h
          cases h
        · rename_i u hqueued
          intro h
          exact enqueue_payload (Prod.ext rfl hqueued)

/-- An accepted resume has found a working directory, and its request waits in the queue. -/
theorem resume_accepted {ctx : Context} {found : Found} {runId : String} {stores : Stores}
    {accepted : Accepted} (h : (resume ctx found runId stores).2 = .ok accepted) :
    ∃ workdir, (∃ persisted ∈ found.persistedWorkdir (ctx.tenantId, runId),
        workdir = persisted.getD (canonicalRunWorkdir ctx.root (ctx.tenantId, runId))) ∧
      ∃ row ∈ (resume ctx found runId stores).1.queue.runQueue.get? ⟨ctx.tenantId, runId, "run"⟩,
        row.payload = Worker.dumpAsyncRequest ctx.python
          (resumeRequest ctx runId (stores.runs.get? (ctx.tenantId, runId)) workdir) := by
  unfold resume at h ⊢
  cases htake : takeUp ctx found runId stores with
  | error refusal =>
    rw [htake] at h
    cases h
  | ok taken =>
    obtain ⟨valid, workdir⟩ := taken
    rw [htake] at h
    have henqueued := enqueueResume_payload (mapError_eq_ok.mp h)
    simp only [takeUp, bind_eq_ok, pure_eq_ok, mapError_eq_ok] at htake
    obtain ⟨-, -, -, -, id, hid, -, -, path, hpath, hpair⟩ := htake
    simp only [Prod.mk.injEq] at hpair
    obtain ⟨rfl, rfl⟩ := hpair
    obtain rfl := validateRunId_eq hid
    exact ⟨path, findWorkdir_eq_ok hpath, henqueued⟩

namespace ApiRun

variable (run : ApiRun)

/-- A run that was started is entered with what its body asked for. -/
theorem entry_fields : run.entry.script = run.body.script ∧
    run.entry.workdir = run.prepared.workdir.path ∧
    run.entry.orchestrator.runsRoot = (run.ctx.root.join "runs").join run.ctx.tenantId := by
  obtain ⟨-, task, -, orchestrator, hopen, -, -, henter⟩ := Worker.run_eq_ok.mp run.entered
  have hroot := (Worker.orchestrator_fields hopen).1
  rcases Worker.enter_eq_ok.mp henter with ⟨state, -, hentry⟩ | ⟨-, -, hentry⟩
  · have hdecision := run.fresh
    rw [hentry] at hdecision
    cases hdecision
  · rw [hentry]
    exact ⟨rfl, rfl, hroot⟩

/-- After its first hop a run that is still going has a checkpoint. -/
theorem checkpoints_running (env : Environment) {k : ℕ} (hk : 0 < k)
    (hrunning : (run.world env k).halted = none) :
    ∃ state, run.checkpoints env k run.entry.orchestrator.runsRoot run.prepared.runId
      = some state := by
  have hlog := (Graph.executeFrom_committed hrunning).2 hk
  refine ⟨{ run.entry.state with criteria := (run.world env k).state.criteria }, ?_⟩
  rw [checkpoints, if_pos ⟨rfl, rfl⟩, world, if_neg hlog]

end ApiRun

section Resumed

variable {run : ApiRun} {env : Environment} {k : ℕ} {i : Interruption run env k}

/-- The worker enters the orchestrator of a carried run again, without a script. -/
theorem Carried.enters (h : Carried i) :
    ∃ entry, AsyncRunWorker.run run.host (run.checkpoints env k)
        (i.request run.prepared.workdir.path) = .ok entry ∧
      entry.decision = .resume ∧ entry.script = none ∧
      entry.workdir = run.prepared.workdir.path ∧
      ∀ j, k ≤ j → env.answers entry.orchestrator j = env.answers run.entry.orchestrator j ∧
        env.authored entry.orchestrator j [] = env.authored run.entry.orchestrator j [] := by
  -- The host answers as it answered the start of the run.
  obtain ⟨hearly, -, -, -, -, hfree, hlate, -⟩ := Worker.run_eq_ok.mp run.entered
  obtain ⟨orchestrator, hopen, hanswers⟩ := h.settings
  obtain ⟨record, hrecord, text, htext, hstrip⟩ := h.described
  have hroot : orchestrator.runsRoot = run.entry.orchestrator.runsRoot := by
    rw [(Worker.orchestrator_fields hopen).1, run.entry_fields.2.2, ← i.root, ← i.tenant]
    rfl
  obtain ⟨state, hstate⟩ := run.checkpoints_running env h.checkpointed i.running
  rw [← hroot] at hstate
  -- The request of the record is all that the task has.
  have hrequest : Worker.contextualRequest (i.request run.prepared.workdir.path) = some text := by
    show (i.stores.runs.get? run.key).bind (·.request) = some text
    rw [Option.mem_def.mp hrecord]
    exact htext
  have hcreated : ∃ task, Worker.Task.create run.prepared.runId none (some text)
      (some (Worker.resolveTaskClass (i.request run.prepared.workdir.path).taskClass none))
      "async-worker" = .ok task :=
    Worker.create_isOk.mpr (Or.inr ⟨text, rfl, hstrip⟩)
  obtain ⟨task, htask⟩ := hcreated
  refine ⟨_, Worker.run_eq_ok.mpr ⟨hearly, task, ?_, orchestrator, hopen, hfree, hlate,
    Worker.enter_eq_ok.mpr (Or.inl ⟨state, hstate, rfl⟩)⟩, rfl, rfl, rfl, hanswers⟩
  rw [hrequest]
  exact htask

/-- The contexts of the resumed hops are the ones of the run, without its script. -/
theorem contexts_resumed {entry : Entry} (hscript : entry.script = none)
    (hanswers : ∀ j, k ≤ j →
      env.answers entry.orchestrator j = env.answers run.entry.orchestrator j ∧
      env.authored entry.orchestrator j [] = env.authored run.entry.orchestrator j []) :
    (fun j => env.contexts entry (k + j)) = fun j =>
      (env.contexts run.entry (k + j)).withScript none
        (env.authored run.entry.orchestrator (k + j) []) := by
  funext j
  obtain ⟨hanswer, hauthored⟩ := hanswers (k + j) (Nat.le_add_right k j)
  simp only [Environment.contexts, hscript, hanswer, Option.getD_none, hauthored]
  rfl

/-- The checkpoint that the resumed execution begins with. -/
theorem Interruption.resumes (i : Interruption run env k) (hk : 0 < k) :
    Graph.resume (run.world env k) (i.disk run.entry.workdir)
      = some ((run.world env k).rebased k) := by
  have hrunning := i.running
  obtain ⟨hsteps, hlog⟩ := Graph.executeFrom_committed hrunning
  have hzero : (run.world env k).steps - k = 0 := by
    have hstart : (Graph.start (startOf run.entry run.prepared.runId run.workdir)).steps = 0 := rfl
    rw [ApiRun.world, hsteps, hstart]
    omega
  rw [Graph.resume, if_neg, i.kept, Graph.World.rebased, hzero, ← hrunning]
  rintro (hfinished | hempty)
  · rw [hrunning] at hfinished
    cases hfinished
  · exact hlog hk hempty

/-- In every run and at every interruption: where nothing of the run is lost on its way through
the queue, it goes on as it would have gone on. -/
theorem resume_continues (run : ApiRun) (env : Environment) (k : ℕ) (i : Interruption run env k)
    (h : Carried i) : Continues i := by
  intro accepted hresume
  obtain ⟨workdir, ⟨persisted, hpersisted, hdir⟩, henqueued⟩ := resume_accepted hresume
  have hkey : (i.ctx.tenantId, run.prepared.runId) = run.key := by rw [i.tenant, ApiRun.key]
  rw [hkey] at hpersisted hdir henqueued
  rw [h.workdir persisted hpersisted] at hdir
  obtain ⟨entry, hentry, hdecision, hscript, hworkdir, hanswers⟩ := h.enters
  have hcontexts := contexts_resumed hscript hanswers
  have hsame : entry.workdir = run.entry.workdir := by
    rw [hworkdir, run.entry_fields.2.1]
  have hlater : k ≤ (run.world env k).steps := by
    rw [ApiRun.world, (Graph.executeFrom_committed i.running).1]
    exact Nat.le_add_left k _
  -- Without commands the authoring is asked the same question with and without the script.
  have hauthored (j : ℕ) (hnone : (env.contexts run.entry (k + j)).script.getD [] = []) :
      env.authored run.entry.orchestrator (k + j) []
        = (env.contexts run.entry (k + j)).authored := by
    have hcommands : run.entry.script.getD [] = [] := hnone
    simp only [Environment.contexts, Graph.NodeContext.withScript, hcommands]
  refine ⟨workdir, entry, (run.world env k).rebased k, henqueued, ?_, hdecision, ?_, fun n => ?_⟩
  · rw [hdir]
    exact hentry
  · rw [hsame]
    exact i.resumes h.checkpointed
  · rw [hcontexts]
    constructor
    · rw [Graph.solvePaths_rebased hlater hauthored h.unread h.unvalved]
      exact Graph.solvePaths_add ..
    · rw [Graph.executeFrom_rebased hlater hauthored h.unread h.unvalved]
      exact congrArg (fun w => w.state.terminal) (Graph.executeFrom_add ..)

end Resumed

section Examples

def buildScript (scripted : Bool) : Option (List String) :=
  if scripted then some ["make > output.txt"] else none

/-- The build, with a script of the caller's own or without one. -/
def scriptedBuild (scripted : Bool) : RunCreate :=
  { fixTheBuild with script := buildScript scripted }

def acmePrepared : Prepared := ⟨none, "run-1", ⟨.ofStr "/srv/workspaces/acme/run-1", false⟩⟩

def acmeChecked : Checked := ⟨some "fix the build", "repo-chore", [], default⟩

def acmeOrchestrator : Orchestrator where
  runsRoot := .ofStr "/srv/runs/acme"
  skillsRoot := .ofStr "/srv/skills"
  factsRoot := .ofStr "/srv/facts"
  indexPath := .ofStr "/srv/runs/acme/skill_index.db"
  approveDefaultTools := true
  principal := ⟨"async-worker", "acme", ["runs", "exec"]⟩
  modelConfig := {}
  runtimeRoot := .ofStr "/srv"
  maxCriterionTimeoutS := some 300

def acmeTask : Worker.Task where
  taskId := "run-1"
  request := some "fix the build"
  taskClass := some "repo-chore"
  submittedBy := "async-worker"
  requireGoalOrRequest := fixTheBuild.requireGoalOrRequest

def acmeRun (scripted : Bool) : ApiRun where
  ctx := openContext
  stores := emptyStores
  body := scriptedBuild scripted
  headers := {}
  accepted := ⟨"run-1", "repo-chore", some (.finite 25)⟩
  prepared := acmePrepared
  checked := acmeChecked
  host := Worker.openHost
  runs _ _ := none
  entry :=
    { orchestrator := acmeOrchestrator
      decision := .start
      state := { task := acmeTask, criteria := [], budget := default, arm := .treatment }
      workdir := acmePrepared.workdir.path
      script := buildScript scripted }
  workdir := ∅
  created := by cases scripted <;> rfl
  prepares := by cases scripted <;> rfl
  checks := rfl
  entered := by
    cases scripted <;> exact Worker.run_eq_ok.mpr
      ⟨rfl, acmeTask, rfl, acmeOrchestrator, rfl, rfl, rfl, rfl⟩
  fresh := rfl

/-- What a hop is answered where a model is configured and every command succeeds. -/
def quietHop : NodeContext := { model := true, tools := true, transcripts := true }

def quietEnvironment : Environment where
  py := Graph.plainPlatform
  answers _ _ := quietHop
  authored _ _ _ := .ok .noReplayableSteps


/-- The stores after the creation, when the row of the killed run has been reaped. -/
def reapedStores (scripted : Bool) : Stores :=
  let created := (create openContext (scriptedBuild scripted) {} emptyStores).1
  { created with queue := { created.queue with
      runQueue := created.queue.runQueue.update (fun _ _ => true) fun row =>
        { row with status := .dead } } }

/-- The run is killed behind `intake` and resumed by its owner. -/
def killedBehindIntake (scripted : Bool) : Interruption (acmeRun scripted) quietEnvironment 1 where
  ctx := openContext
  found := { persistedWorkdir _ := some (some acmePrepared.workdir.path), pathExists _ := true }
  stores := reapedStores scripted
  disk _ := ((acmeRun scripted).world quietEnvironment 1).workdir
  tenant := rfl
  root := rfl
  running := by cases scripted <;> rfl
  kept := rfl

theorem killed_resume_accepted (scripted : Bool) :
    (resume openContext (killedBehindIntake scripted).found "run-1" (reapedStores scripted)).2
      = .ok ⟨"run-1", "repo-chore", some (.finite 25)⟩ := by
  cases scripted <;> rfl

/-- Without a script the killed run goes on as it would have gone on. -/
theorem resume_continues_unscripted :
    (resume openContext (killedBehindIntake false).found "run-1" (reapedStores false)).2
      = .ok ⟨"run-1", "repo-chore", some (.finite 25)⟩ ∧ Continues (killedBehindIntake false) := by
  refine ⟨killed_resume_accepted false, resume_continues _ _ _ _ ?_⟩
  have hhalted : (Graph.executeFrom quietEnvironment.py (fun j =>
      quietEnvironment.contexts (acmeRun false).entry (1 + j))
      ((acmeRun false).world quietEnvironment 1) 6).halted = some .finished := by
    decide +kernel
  exact
    { checkpointed := Nat.one_pos
      described := ⟨_, rfl, "fix the build", rfl, by decide⟩
      workdir := fun persisted hpersisted => by
        obtain rfl := Option.some.inj hpersisted
        rfl
      settings := ⟨acmeOrchestrator, rfl, fun _ _ => ⟨rfl, rfl⟩⟩
      unread := Graph.scriptUnread_of_none fun _ => rfl
      unvalved := Graph.unvalved_of_halted hhalted (by decide) }

/-- The script of a run is neither in its checkpoints nor in the request of its resume: killed
behind `intake`, the run is solved by the model and not by its script. -/
theorem resume_drops_script : ¬ ∀ (run : ApiRun) (env : Environment) (k : ℕ)
    (i : Interruption run env k), Continues i := by
  intro h
  obtain ⟨workdir, entry, w, -, hentry, -, hresume, hsame⟩ :=
    h (acmeRun true) quietEnvironment 1 (killedBehindIntake true) _ (killed_resume_accepted true)
  have hscript : entry.script = none := by
    obtain ⟨-, task, -, orchestrator, -, -, -, henter⟩ := Worker.run_eq_ok.mp hentry
    rcases Worker.enter_eq_ok.mp henter with ⟨state, -, rfl⟩ | ⟨-, -, rfl⟩ <;> rfl
  have hcontexts : (fun j => quietEnvironment.contexts entry (1 + j)) = fun _ =>
      quietHop.withScript none (.ok .noReplayableSteps) := by
    funext j
    simp only [Environment.contexts, hscript]
    rfl
  have hw : w = ((acmeRun true).world quietEnvironment 1).rebased 1 :=
    Option.some.inj (hresume.symm.trans ((killedBehindIntake true).resumes Nat.one_pos))
  have hpaths := (hsame 3).1
  rw [hcontexts, hw] at hpaths
  have hdiffer : (acmeRun true).paths quietEnvironment 4 ≠
      (acmeRun true).paths quietEnvironment 1 ++ Graph.solvePaths quietEnvironment.py
        (fun _ => quietHop.withScript none (.ok .noReplayableSteps))
        (((acmeRun true).world quietEnvironment 1).rebased 1) 3 := by
    decide +kernel
  exact hdiffer hpaths

end Examples

end Recertia.Api
