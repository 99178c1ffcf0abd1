import Recertia.Worker.Execute

/-! Where the standalone worker enters the orchestrator as `_run` does in the API process, and
where it does not. -/
namespace Recertia.Worker

open Json (PyValue PyDict)
open Json.PyValue (ofOption)
open PosixPath (PurePath)
open Graph (TaskCriterion)
open Fallible

/-- What an entered orchestrator was asked to run. -/
structure Asked where
  decision : Decision
  goal : Option Goal
  criteria : List TaskCriterion
  taskClass : Option String
  modelConfig : ModelConfig
  maxCriterionTimeoutS : Option Int

def Entry.asked (entry : Entry) : Asked where
  decision := entry.decision
  goal := entry.state.task.goal
  criteria := entry.state.criteria
  taskClass := entry.state.task.taskClass
  modelConfig := entry.orchestrator.modelConfig
  maxCriterionTimeoutS := entry.orchestrator.maxCriterionTimeoutS

/-- Where the first executor enters the orchestrator, the second one enters it with the same. -/
def StartsAlike (first second : Except Refusal Entry) : Prop :=
  ∀ entry, first = .ok entry → ∃ entry', second = .ok entry' ∧ entry'.asked = entry.asked

theorem refuseIf_eq_ok {refused : Bool} {refusal : Refusal} {u : Unit} :
    refuseIf refused refusal = .ok u ↔ refused = false := by
  cases refused <;> simp [refuseIf]

theorem create_isOk {taskId submittedBy : String} {goal : Option Goal}
    {request taskClass : Option String} :
    (∃ task, Task.create taskId goal request taskClass submittedBy = .ok task) ↔
      goal.isSome ∨ ∃ r ∈ request, Text.strip r ≠ "" := by
  by_cases h : goal.isSome ∨ ∃ r ∈ request, Text.strip r ≠ ""
  · rw [Task.create, dif_pos h]
    exact ⟨fun _ => h, fun _ => ⟨_, rfl⟩⟩
  · rw [Task.create, dif_neg h]
    exact ⟨fun ⟨_, htask⟩ => (nomatch htask), fun hvalid => (h hvalid).elim⟩

theorem create_fields {taskId submittedBy : String} {goal : Option Goal}
    {request taskClass : Option String} {task : Task}
    (h : Task.create taskId goal request taskClass submittedBy = .ok task) :
    task.goal = goal ∧ task.taskClass = taskClass := by
  unfold Task.create at h
  split at h
  · obtain rfl := Except.ok.inj h
    exact ⟨rfl, rfl⟩
  · cases h

/-- Building keeps the wiring and sets no ceiling. -/
theorem built_fields {host : Host} {modelConfig : Option ModelConfig}
    {wiring : ModelConfig → Wiring} {orchestrator : Orchestrator}
    (h : buildDefaultOrchestrator host modelConfig wiring = .ok orchestrator) :
    ∃ config, modelConfig.or host.loadModelConfig = some config ∧
      orchestrator = { wiring config with } := by
  obtain ⟨config, hconfig, hopen⟩ := bind_eq_ok.mp h
  refine ⟨config, ?_, ?_⟩
  · cases hsettled : modelConfig.or host.loadModelConfig with
    | none => simp [settledConfig, hsettled, orError] at hconfig
    | some other => simpa [settledConfig, hsettled, orError] using hconfig
  · split at hopen
    · cases hopen
    · exact (Except.ok.inj hopen).symm

theorem orchestrator_fields {host : Host} {req : AsyncRunRequest} {orchestrator : Orchestrator}
    (h : AsyncRunWorker.orchestrator host req = .ok orchestrator) :
    orchestrator.runsRoot = req.runsRoot ∧
      req.modelConfig.or host.loadModelConfig = some orchestrator.modelConfig ∧
      orchestrator.maxCriterionTimeoutS = req.maxCriterionTimeoutS := by
  obtain ⟨skills, -, hskills⟩ := bind_eq_ok.mp h
  obtain ⟨built, hbuilt, hceiling⟩ := bind_eq_ok.mp hskills
  obtain ⟨config, hconfig, rfl⟩ := built_fields hbuilt
  obtain rfl := Except.ok.inj hceiling
  exact ⟨rfl, hconfig, rfl⟩

theorem claimOrchestrator_fields {py : Python} {host : Host} {root : PurePath}
    {tenantId : String} {payload : PyDict} {orchestrator : Orchestrator}
    (h : claimOrchestrator py host root tenantId payload = .ok orchestrator) :
    orchestrator.runsRoot = (root.join "runs").join tenantId ∧
      host.loadModelConfig = some orchestrator.modelConfig ∧
      orchestrator.maxCriterionTimeoutS = none := by
  obtain ⟨skills, -, hskills⟩ := bind_eq_ok.mp h
  obtain ⟨config, hconfig, rfl⟩ := built_fields hskills
  exact ⟨rfl, hconfig, rfl⟩

theorem resume_eq_ok {orchestrator : Orchestrator} {runs : RunStore} {runId : String}
    {workdir : PurePath} {script : Option (List String)} {entry : Entry} :
    orchestrator.resume runs runId workdir script = .ok entry ↔
      ∃ state, runs orchestrator.runsRoot runId = some state ∧
        entry = { orchestrator, decision := .resume, state, workdir, script } := by
  unfold Orchestrator.resume
  cases hrun : runs orchestrator.runsRoot runId with
  | none => simp
  | some state => simp [eq_comm]

theorem start_eq_ok {orchestrator : Orchestrator} {runs : RunStore} {runId : String}
    {state : RunState} {workdir : PurePath} {script : Option (List String)}
    {maxSteps : Option Int} {entry : Entry} :
    orchestrator.start runs runId state workdir script maxSteps = .ok entry ↔
      runs orchestrator.runsRoot runId = none ∧
        entry = { orchestrator, decision := .start, state, workdir, script, maxSteps } := by
  unfold Orchestrator.start
  cases hrun : runs orchestrator.runsRoot runId with
  | none => simp [eq_comm]
  | some state => simp

/-- `_run` resumes a run that there is, and starts one that there is not unless it was asked
to resume it. -/
theorem enter_eq_ok {runs : RunStore} {req : AsyncRunRequest} {task : Task}
    {orchestrator : Orchestrator} {entry : Entry} :
    AsyncRunWorker.enter runs req task orchestrator = .ok entry ↔
      (∃ state, runs orchestrator.runsRoot req.runId = some state ∧
        entry = { orchestrator, decision := .resume, state, workdir := req.workdir
                  script := req.script }) ∨
      (runs orchestrator.runsRoot req.runId = none ∧ req.action ≠ "resume" ∧
        entry = { orchestrator, decision := .start
                  state := { task, criteria := req.criteria, budget := req.budget, arm := req.arm }
                  workdir := req.workdir, script := req.script }) := by
  unfold AsyncRunWorker.enter
  by_cases haction : req.action = "resume"
  · simp [haction, resume_eq_ok]
  · cases hrun : runs orchestrator.runsRoot req.runId with
    | none => simp [haction, Orchestrator.start, hrun, eq_comm]
    | some state => simp [haction, Orchestrator.start, Orchestrator.resume, hrun, eq_comm]

/-- Everything that `_run` goes through before it has entered the orchestrator. -/
theorem run_eq_ok {host : Host} {runs : RunStore} {req : AsyncRunRequest} {entry : Entry} :
    AsyncRunWorker.run host runs req = .ok entry ↔
      host.cancelledEarly = false ∧ ∃ task,
        Task.create req.runId req.goal (contextualRequest req)
          (some (resolveTaskClass req.taskClass (req.goal.bind fun goal => goal.taskClass)))
          "async-worker" = .ok task ∧ ∃ orchestrator,
        AsyncRunWorker.orchestrator host req = .ok orchestrator ∧
        host.workspaceBusy req.workdir = false ∧ host.cancelledLate = false ∧
        AsyncRunWorker.enter runs req task orchestrator = .ok entry := by
  simp only [AsyncRunWorker.run, bind_eq_ok, refuseIf_eq_ok, exists_const]

/-- The criteria that a claim of a request is executed with. -/
def claimCriteria (py : Python) (req : AsyncRunRequest) : Except Refusal (List TaskCriterion) :=
  if req.criteria.isEmpty then (loadCriteria py (.list [outputExists])).mapError .load
  else .ok req.criteria

theorem loadCriteria_orElse {py : Python} {req : AsyncRunRequest} (h : py.Keeps req) :
    (loadCriteria py ((PyValue.list (req.criteria.map fun item =>
      .dict (py.criterion.dump item))).orElse (.list [outputExists]))).mapError Refusal.load
      = claimCriteria py req := by
  unfold claimCriteria
  cases hcriteria : req.criteria with
  | nil => rfl
  | cons item items =>
    have hload : loadCriteria py (.list ((item :: items).map fun item =>
        .dict (py.criterion.dump item))) = .ok (item :: items) := by
      apply loadCriteria_dump
      rw [← hcriteria]
      exact h.criteria
    show (loadCriteria py (.list ((item :: items).map fun item =>
        .dict (py.criterion.dump item)))).mapError Refusal.load = _
    rw [hload]
    rfl

theorem arm_carried (chosen : Graph.Arm) :
    arm ((PyValue.str (armText chosen)).orElse (.str "treatment")) = .ok chosen := by
  cases chosen <;> rfl

theorem script_carried (parts : Option (List String)) :
    script (ofOption (fun script => .list (script.map .str)) parts) = .ok parts := by
  cases parts with
  | none => rfl
  | some parts =>
    show (orError _ (PyValue.list (parts.map .str)).strings?).map some = .ok (some parts)
    rw [Json.strings?_map_str]
    rfl

theorem pathOr_carried {py : Python} {payload : PyDict} {key : String} {path default : PurePath}
    (h : payload.get key = .str path.str) : pathOr py payload key default = path := by
  rw [pathOr, h, str_orElse, textOrElse_path]

theorem action_carried (py : Python) {payload : PyDict} {req : AsyncRunRequest}
    (h : payload.get "action" = .str req.action) :
    textOr py payload "action" "start" = "resume" ↔ req.action = "resume" := by
  rw [textOr, h, str_orElse]
  by_cases hempty : req.action = "" <;> simp [textOrElse, hempty]

/-- A claim of a request is executed with the run id, the working directory, the budget, the
script and the arm of the request. -/
theorem executeClaim_eq_ok {py : Python} {host : Host} {runs : RunStore} {root : PurePath}
    {claim : Queue.Claim PyDict} {req : AsyncRunRequest} {entry : Entry}
    (hkey : claim.key = (queueItem py req).key) (hcarries : Carries py claim.payload req)
    (hkeeps : py.Keeps req) :
    executeClaim py host runs root claim = .ok entry ↔
      ∃ criteria, claimCriteria py req = .ok criteria ∧ host.makesDir req.workdir = true ∧
        ∃ orchestrator, claimOrchestrator py host root req.tenantId claim.payload
            = .ok orchestrator ∧
          ((req.action = "resume" ∧
              orchestrator.resume runs req.runId req.workdir req.script = .ok entry) ∨
            (req.action ≠ "resume" ∧ ∃ task,
              Task.create req.runId none (some (claimRequest claim.payload req.runId))
                req.taskClass "recertia-worker" = .ok task ∧
              orchestrator.start runs req.runId
                { task, criteria, budget := req.budget, arm := req.arm } req.workdir req.script
                = .ok entry)) := by
  have hcriteria := loadCriteria_orElse hkeeps
  have hbudget : (loadBudget py (claim.payload.get "budget")).mapError Refusal.load
      = .ok req.budget := by
    rw [hcarries.budget, loadBudget_dump hkeeps.budget]
    rfl
  have haction := action_carried py hcarries.action
  simp only [executeClaim, hkey, queueItem, Queue.QueueItem.key, hcarries.criteria, hcriteria,
    hbudget, pathOr_carried hcarries.workdir, hcarries.arm, arm_carried, hcarries.script,
    script_carried, hcarries.maxSteps, hcarries.taskClass, str?_ofOption, bind_eq_ok,
    refuseIf_eq_ok]
  have hkind : decide ("run" ≠ "run") = false := by decide
  have hsteps : PyValue.null.int? = none := rfl
  simp only [hkind, hsteps, haction, Except.ok.injEq, exists_eq_left', exists_const, true_and,
    Bool.not_eq_false']
  by_cases h : req.action = "resume"
  · simp only [h, if_true, true_and, ne_eq, not_true, false_and, or_false]
  · simp only [h, if_false, false_and, false_or, ne_eq, not_false_iff, true_and, bind_eq_ok]

/-- `_run` gets as far as the orchestrator: not cancelled, with a task, an orchestrator that
opens, a free working directory, and a run to resume where it is asked to resume one. -/
structure Reaches (host : Host) (runs : RunStore) (req : AsyncRunRequest) : Prop where
  early : host.cancelledEarly = false
  task : req.goal.isSome ∨ ∃ r ∈ req.request, Text.strip r ≠ ""
  opens : ∃ orchestrator, AsyncRunWorker.orchestrator host req = .ok orchestrator
  free : host.workspaceBusy req.workdir = false
  late : host.cancelledLate = false
  resumable : req.action = "resume" → ∃ state, runs req.runsRoot req.runId = some state

theorem contextualRequest_valid (req : AsyncRunRequest) :
    (req.goal.isSome ∨ ∃ r ∈ contextualRequest req, Text.strip r ≠ "") ↔
      req.goal.isSome ∨ ∃ r ∈ req.request, Text.strip r ≠ "" := by
  cases hgoal : req.goal with
  | none => simp [contextualRequest, hgoal]
  | some goal => simp

theorem run_isOk {host : Host} {runs : RunStore} {req : AsyncRunRequest} :
    (∃ entry, AsyncRunWorker.run host runs req = .ok entry) ↔ Reaches host runs req := by
  constructor
  · rintro ⟨entry, hrun⟩
    obtain ⟨hearly, task, htask, orchestrator, hopen, hfree, hlate, henter⟩ := run_eq_ok.mp hrun
    have hroot := (orchestrator_fields hopen).1
    have hvalid := (contextualRequest_valid req).mp (create_isOk.mp ⟨task, htask⟩)
    refine ⟨hearly, hvalid, ⟨orchestrator, hopen⟩, hfree, hlate, fun haction => ?_⟩
    rw [← hroot]
    rcases enter_eq_ok.mp henter with ⟨state, hstate, -⟩ | ⟨-, hstart, -⟩
    · exact ⟨state, hstate⟩
    · exact (hstart haction).elim
  · intro h
    obtain ⟨task, htask⟩ := create_isOk.mpr ((contextualRequest_valid req).mpr h.task)
    obtain ⟨orchestrator, hopen⟩ := h.opens
    have hroot := (orchestrator_fields hopen).1
    have henter : ∃ entry, AsyncRunWorker.enter runs req task orchestrator = .ok entry := by
      cases hrun : runs orchestrator.runsRoot req.runId with
      | some state => exact ⟨_, enter_eq_ok.mpr (Or.inl ⟨state, hrun, rfl⟩)⟩
      | none =>
        have hstart : req.action ≠ "resume" := by
          intro haction
          obtain ⟨state, hstate⟩ := h.resumable haction
          rw [← hroot, hrun] at hstate
          cases hstate
        exact ⟨_, enter_eq_ok.mpr (Or.inr ⟨hrun, hstart, rfl⟩)⟩
    obtain ⟨entry, hentry⟩ := henter
    exact ⟨entry, run_eq_ok.mpr
      ⟨h.early, task, htask, orchestrator, hopen, h.free, h.late, hentry⟩⟩

/-- Two checkpoints say the same about what is run. -/
def SameRun (first second : RunState) : Prop :=
  first.task.goal = second.task.goal ∧ first.criteria = second.criteria ∧
    first.task.taskClass = second.task.taskClass

/-- The standalone worker can open what it needs, its environment gives the model
configuration of the request, there is no ceiling, and the run store and the rest of the
request leave it nothing to decide otherwise. -/
structure Unaltered (py : Python) (host worker : Host) (runs : RunStore) (root : PurePath)
    (req : AsyncRunRequest) : Prop where
  makesDir : worker.makesDir req.workdir = true
  opens : ∃ orchestrator, claimOrchestrator py worker root req.tenantId
    (dumpAsyncRequest py req) = .ok orchestrator
  config : req.modelConfig.or host.loadModelConfig = worker.loadModelConfig
  ceiling : req.maxCriterionTimeoutS = none
  resumed : req.action = "resume" → ∃ state state', runs req.runsRoot req.runId = some state ∧
    runs ((root.join "runs").join req.tenantId) req.runId = some state' ∧ SameRun state' state
  started : req.action ≠ "resume" → runs req.runsRoot req.runId = none ∧
    runs ((root.join "runs").join req.tenantId) req.runId = none ∧ req.goal = none ∧
    req.criteria ≠ [] ∧ ∃ text, req.taskClass = some text ∧ text ≠ "" ∧ Text.strip text = text

theorem resolveTaskClass_explicit (explicit : Option String) :
    explicit = some (resolveTaskClass explicit none) ↔
      ∃ text, explicit = some text ∧ text ≠ "" ∧ Text.strip text = text := by
  cases explicit with
  | none => simp
  | some text =>
    by_cases hblank : Text.strip text = ""
    · have hresolve : resolveTaskClass (some text) none = "repo-chore" := by
        simp [resolveTaskClass, hblank]
      constructor
      · intro h
        have htext : text = "repo-chore" := by simpa only [hresolve, Option.some.injEq] using h
        rw [htext] at hblank
        exact absurd hblank (by decide)
      · rintro ⟨other, hother, hne, hstrip⟩
        obtain rfl := Option.some.inj hother
        exact (hne (hstrip.symm.trans hblank)).elim
    · have hresolve : resolveTaskClass (some text) none = Text.strip text := by
        simp [resolveTaskClass, hblank]
      rw [hresolve]
      constructor
      · intro h
        have htext : text = Text.strip text := Option.some.inj h
        exact ⟨text, rfl, htext ▸ hblank, htext.symm⟩
      · rintro ⟨other, hother, -, hstrip⟩
        obtain rfl := Option.some.inj hother
        rw [hstrip]

theorem loadCriteria_default {py : Python} {item : TaskCriterion}
    (hitem : py.criterion.validate outputExists = some item) :
    (loadCriteria py (.list [outputExists])).mapError Refusal.load = .ok [item] := by
  have hmap : [outputExists].mapM (fun raw =>
      orError LoadError.invalidCriterion (py.criterion.validate raw)) = .ok [item] := by
    rw [List.mapM_cons, List.mapM_nil, hitem]
    rfl
  rw [loadCriteria, items?_list]
  show ([outputExists].mapM fun raw =>
      orError LoadError.invalidCriterion (py.criterion.validate raw)).mapError Refusal.load = _
  rw [hmap]
  rfl

/-- The claim of a request without criteria gets one. -/
theorem claimCriteria_spec {py : Python} (req : AsyncRunRequest)
    (hdefault : ∃ item, py.criterion.validate outputExists = some item) :
    ∃ criteria, claimCriteria py req = .ok criteria ∧
      (criteria = req.criteria ↔ req.criteria ≠ []) := by
  obtain ⟨item, hitem⟩ := hdefault
  unfold claimCriteria
  cases hcriteria : req.criteria with
  | nil => exact ⟨[item], loadCriteria_default hitem, by simp⟩
  | cons first rest => exact ⟨first :: rest, rfl, by simp⟩

section Executed

variable {py : Python} {host worker : Host} {runs : RunStore} {root : PurePath}
  {req : AsyncRunRequest} {claim : Queue.Claim PyDict}

theorem unaltered_of_alike (hkeeps : py.Keeps req)
    (hdefault : ∃ item, py.criterion.validate outputExists = some item)
    (hkey : claim.key = (queueItem py req).key) (hdump : claim.payload = dumpAsyncRequest py req)
    (halike : StartsAlike (AsyncRunWorker.run host runs req)
      (executeClaim py worker runs root claim))
    (hreaches : Reaches host runs req) : Unaltered py host worker runs root req := by
  have hcarries : Carries py claim.payload req := hdump ▸ carries_dumpAsyncRequest py req
  obtain ⟨entry, hrun⟩ := run_isOk.mpr hreaches
  obtain ⟨entry', hclaim, hasked⟩ := halike entry hrun
  obtain ⟨-, task, htask, orchestrator, hopen, -, -, henter⟩ := run_eq_ok.mp hrun
  obtain ⟨criteria, hcriteria, hdir, orchestrator', hopen', hbranch⟩ :=
    (executeClaim_eq_ok hkey hcarries hkeeps).mp hclaim
  obtain ⟨hroot, hconfig, hceiling⟩ := orchestrator_fields hopen
  obtain ⟨hroot', hconfig', hceiling'⟩ := claimOrchestrator_fields hopen'
  have hopens : ∃ orchestrator, claimOrchestrator py worker root req.tenantId
      (dumpAsyncRequest py req) = .ok orchestrator := ⟨orchestrator', hdump ▸ hopen'⟩
  -- What is asked of the model does not depend on the decision.
  have hsettings (hmodel : orchestrator'.modelConfig = orchestrator.modelConfig)
      (hlimit : orchestrator'.maxCriterionTimeoutS = orchestrator.maxCriterionTimeoutS) :
      req.modelConfig.or host.loadModelConfig = worker.loadModelConfig ∧
        req.maxCriterionTimeoutS = none := by
    rw [hconfig, hconfig', hmodel, ← hceiling, ← hlimit, hceiling']
    exact ⟨rfl, rfl⟩
  rcases enter_eq_ok.mp henter with ⟨state, hstate, rfl⟩ | ⟨hnone, haction, rfl⟩
  · rcases hbranch with ⟨haction, hresume⟩ | ⟨-, task', -, hstart⟩
    · obtain ⟨state', hstate', rfl⟩ := resume_eq_ok.mp hresume
      simp only [Entry.asked, Asked.mk.injEq, true_and] at hasked
      obtain ⟨hgoal, hitems, hclass, hmodel, hlimit⟩ := hasked
      obtain ⟨hsame, hnoLimit⟩ := hsettings hmodel hlimit
      refine ⟨hdir, hopens, hsame, hnoLimit, fun _ => ?_, fun hstart => (hstart haction).elim⟩
      exact ⟨state, state', hroot ▸ hstate, hroot' ▸ hstate', hgoal, hitems, hclass⟩
    · obtain ⟨-, rfl⟩ := start_eq_ok.mp hstart
      exact nomatch congrArg Asked.decision hasked
  · rcases hbranch with ⟨hresume, -⟩ | ⟨-, task', htask', hstart⟩
    · exact (haction hresume).elim
    · obtain ⟨hnone', rfl⟩ := start_eq_ok.mp hstart
      simp only [Entry.asked, Asked.mk.injEq, true_and] at hasked
      obtain ⟨hgoal, hitems, hclass, hmodel, hlimit⟩ := hasked
      obtain ⟨hsame, hnoLimit⟩ := hsettings hmodel hlimit
      have hnoGoal : req.goal = none := by
        rw [← (create_fields htask).1, ← hgoal, (create_fields htask').1]
      have hgiven : req.criteria ≠ [] := by
        obtain ⟨other, hother, hsome⟩ := claimCriteria_spec req hdefault
        obtain rfl := Except.ok.inj (hcriteria.symm.trans hother)
        exact hsome.mp hitems
      have hexplicit : req.taskClass = some (resolveTaskClass req.taskClass none) := by
        rw [(create_fields htask).2, (create_fields htask').2, hnoGoal] at hclass
        exact hclass
      refine ⟨hdir, hopens, hsame, hnoLimit, fun hresume => (haction hresume).elim, fun _ => ?_⟩
      exact ⟨hroot ▸ hnone, hroot' ▸ hnone', hnoGoal, hgiven,
        (resolveTaskClass_explicit req.taskClass).mp hexplicit⟩

/-- Without a goal the claim's task has the request of the request. -/
theorem claimRequest_valid (hcarries : Carries py claim.payload req) (hgoal : req.goal = none)
    (htask : req.goal.isSome ∨ ∃ r ∈ req.request, Text.strip r ≠ "") :
    (none : Option Goal).isSome ∨ ∃ r ∈ some (claimRequest claim.payload req.runId),
      Text.strip r ≠ "" := by
  rcases htask with hsome | ⟨r, hr, hstrip⟩
  · simp [hgoal] at hsome
  · have hne : r ≠ "" := by
      rintro rfl
      exact hstrip (by decide)
    have hrequest : claimRequest claim.payload req.runId = r := by
      rw [claimRequest, hcarries.request, str?_ofOption, hr]
      exact if_pos hne
    exact Or.inr ⟨r, by rw [hrequest]; rfl, hstrip⟩

theorem alike_of_unaltered (hkeeps : py.Keeps req)
    (hdefault : ∃ item, py.criterion.validate outputExists = some item)
    (hkey : claim.key = (queueItem py req).key) (hdump : claim.payload = dumpAsyncRequest py req)
    (hunaltered : Reaches host runs req → Unaltered py host worker runs root req) :
    StartsAlike (AsyncRunWorker.run host runs req) (executeClaim py worker runs root claim) := by
  have hcarries : Carries py claim.payload req := hdump ▸ carries_dumpAsyncRequest py req
  intro entry hrun
  have hreaches := run_isOk.mp ⟨entry, hrun⟩
  have h := hunaltered hreaches
  obtain ⟨-, task, htask, orchestrator, hopen, -, -, henter⟩ := run_eq_ok.mp hrun
  obtain ⟨orchestrator', hopen'⟩ := h.opens
  obtain ⟨criteria, hcriteria, hgiven⟩ := claimCriteria_spec req hdefault
  obtain ⟨hroot, hconfig, hceiling⟩ := orchestrator_fields hopen
  obtain ⟨hroot', hconfig', hceiling'⟩ := claimOrchestrator_fields hopen'
  have hmodel : orchestrator'.modelConfig = orchestrator.modelConfig :=
    Option.some.inj (hconfig'.symm.trans (h.config.symm.trans hconfig))
  have hlimit : orchestrator'.maxCriterionTimeoutS = orchestrator.maxCriterionTimeoutS := by
    rw [hceiling', hceiling, h.ceiling]
  rw [← hdump] at hopen'
  by_cases haction : req.action = "resume"
  · obtain ⟨state, state', hstate, hstate', hgoal, hitems, hclass⟩ := h.resumed haction
    have hentry' : executeClaim py worker runs root claim = .ok
        { orchestrator := orchestrator', decision := .resume, state := state'
          workdir := req.workdir, script := req.script } := by
      apply (executeClaim_eq_ok hkey hcarries hkeeps).mpr
      refine ⟨criteria, hcriteria, h.makesDir, orchestrator', hopen', Or.inl ⟨haction, ?_⟩⟩
      exact resume_eq_ok.mpr ⟨state', hroot' ▸ hstate', rfl⟩
    refine ⟨_, hentry', ?_⟩
    rcases enter_eq_ok.mp henter with ⟨other, hother, rfl⟩ | ⟨-, hstart, -⟩
    · rw [hroot, hstate] at hother
      obtain rfl := Option.some.inj hother
      simp only [Entry.asked, hmodel, hlimit, hgoal, hitems, hclass]
    · exact (hstart haction).elim
  · obtain ⟨hnone, hnone', hnoGoal, hsome, hexplicit⟩ := h.started haction
    obtain ⟨task', htask'⟩ := create_isOk.mpr (claimRequest_valid hcarries hnoGoal hreaches.task)
    have hentry' : executeClaim py worker runs root claim = .ok
        { orchestrator := orchestrator', decision := .start
          state := { task := task', criteria, budget := req.budget, arm := req.arm }
          workdir := req.workdir, script := req.script } := by
      apply (executeClaim_eq_ok hkey hcarries hkeeps).mpr
      refine ⟨criteria, hcriteria, h.makesDir, orchestrator', hopen', Or.inr ⟨haction, ?_⟩⟩
      exact ⟨task', htask', start_eq_ok.mpr ⟨hroot' ▸ hnone', rfl⟩⟩
    refine ⟨_, hentry', ?_⟩
    rcases enter_eq_ok.mp henter with ⟨state, hstate, -⟩ | ⟨-, -, rfl⟩
    · rw [hroot, hnone] at hstate
      cases hstate
    · have hclass : task'.taskClass = task.taskClass := by
        rw [(create_fields htask').2, (create_fields htask).2, hnoGoal]
        exact (resolveTaskClass_explicit req.taskClass).mpr hexplicit
      have hgoal : task'.goal = task.goal := by
        rw [(create_fields htask').1, (create_fields htask).1, hnoGoal]
      simp only [Entry.asked, hmodel, hlimit, hgoal, hclass, hgiven.mpr hsome]

end Executed

/-- For every request, every run store and every surrounding of the two processes: the
standalone worker enters the orchestrator as `_run` does exactly where `_run` does not get
there, or where nothing that the worker leaves out or decides otherwise comes into play. -/
theorem executeClaim_starts_alike_iff {py : Python} {host worker : Host} {runs : RunStore}
    {root : PurePath} {req : AsyncRunRequest} {claim : Queue.Claim PyDict}
    (hkeeps : py.Keeps req)
    (hdefault : ∃ item, py.criterion.validate outputExists = some item)
    (hkey : claim.key = (queueItem py req).key)
    (hpayload : Json.reloadDict (queueItem py req).payload = some claim.payload) :
    StartsAlike (AsyncRunWorker.run host runs req) (executeClaim py worker runs root claim) ↔
      (Reaches host runs req → Unaltered py host worker runs root req) := by
  have hdump : claim.payload = dumpAsyncRequest py req :=
    (Option.some.inj ((reload_dumpAsyncRequest hkeeps).symm.trans hpayload)).symm
  exact ⟨unaltered_of_alike hkeeps hdefault hkey hdump,
    alike_of_unaltered hkeeps hdefault hkey hdump⟩

/-- The embedded worker runs the loaded payload, which is the request itself. -/
theorem run_loaded {py : Python} {host : Host} {runs : RunStore} {req : AsyncRunRequest}
    (hkeeps : py.Keeps req) :
    ∃ loaded, loadAsyncRequest py (dumpAsyncRequest py req) = .ok loaded ∧
      AsyncRunWorker.run host runs loaded = AsyncRunWorker.run host runs req := by
  refine ⟨_, loadAsyncRequest_carried (carries_dumpAsyncRequest py req) hkeeps, ?_⟩
  have haction : textOrElse req.action "start" = "resume" ↔ req.action = "resume" := by
    by_cases hempty : req.action = "" <;> simp [textOrElse, hempty]
  have henter (task : Task) (orchestrator : Orchestrator) :
      AsyncRunWorker.enter runs { req with
        mode := textOrElse req.mode "async"
        action := textOrElse req.action "start" } task orchestrator
      = AsyncRunWorker.enter runs req task orchestrator := by
    simp only [AsyncRunWorker.enter, haction]
  simp only [AsyncRunWorker.run, henter]
  rfl

/-- Pydantic on what a simple request holds: command criteria and a budget without a cost. -/
def simplePython : Python where
  repr _ := ""
  goal := { dump := fun _ => [], validate := fun _ => none }
  criterion :=
    { dump := fun item =>
        [("id", .str item.id), ("kind", .str "command"),
         ("run", match item.check with
          | .command run _ => .str run
          | _ => .null),
         ("expect_exit", .int 0), ("expr", .null), ("target", .null), ("schema_ref", .null),
         ("metric", .null), ("op", .null), ("threshold", .null), ("rubric", .null),
         ("isolation", .str "fresh_context"), ("lens", .null), ("timeout_s", .int 300),
         ("weight", .float .one), ("sensitivity_proof", .null),
         ("source", .str "caller"), ("preregistered", .bool true)]
      validate := fun value => do
        let items ← value.dict?
        let id ← (items.get "id").str?
        let run ← (items.get "run").str?
        return { id, check := .command run 0 } }
  budget :=
    { dump := fun budget =>
        [("max_attempts", .int budget.maxAttempts), ("max_tool_calls", .int budget.maxToolCalls),
         ("max_tokens", .null), ("max_wall_clock_s", .int budget.maxWallClockS),
         ("max_cost_usd", .null), ("max_branches", .int budget.maxBranches),
         ("max_parallel_steps", .int budget.maxParallelSteps),
         ("claim_timeout_s", .int budget.claimTimeoutS),
         ("max_versions_written", .int budget.maxVersionsWritten)]
      validate := fun value => do
        let items ← value.dict?
        let maxAttempts ← (items.get "max_attempts").int?
        let maxBranches ← (items.get "max_branches").int?
        let fields : Graph.BudgetFields :=
          { maxAttempts := maxAttempts.toNat, maxBranches := maxBranches.toNat }
        if h : fields.Valid then some { fields with valid := h } else none }

/-- A request as the API makes one, but for the ceiling. -/
def plainRequest (ceiling : Option Int) : AsyncRunRequest where
  runId := "run-1"
  tenantId := "acme"
  goal := none
  request := some "fix the build"
  taskClass := some "repo-chore"
  criteria := [{ id := "builds", check := .command "make" 0 }]
  budget := default
  workdir := .ofStr "/srv/workspaces/acme/run-1"
  script := none
  arm := .treatment
  approveTools := true
  skillsRoot := .ofStr "/srv/skills"
  factsRoot := .ofStr "/srv/facts"
  runsRoot := .ofStr "/srv/runs/acme"
  indexPath := .ofStr "/srv/runs/acme/skill_index.db"
  maxCriterionTimeoutS := ceiling

def plainClaim (ceiling : Option Int) : Queue.Claim PyDict where
  key := ⟨"acme", "run-1", "run"⟩
  claimToken := 1
  attempt := 0
  payload := dumpAsyncRequest simplePython (plainRequest ceiling)

/-- A host that refuses nothing, with the stub model. -/
def openHost : Host where
  loadModelConfig := some {}
  tenantSkills := false
  opens _ := .ok ()
  makesDir _ := true
  workspaceBusy _ := false
  cancelledEarly := false
  cancelledLate := false

theorem simplePython_keeps (ceiling : Option Int) : simplePython.Keeps (plainRequest ceiling) where
  goal := fun _ h => nomatch h
  criteria := by
    intro item hitem
    obtain rfl := List.mem_singleton.mp hitem
    exact ⟨rfl, rfl⟩
  budget := ⟨rfl, rfl⟩

theorem plainRequest_reaches (ceiling : Option Int) :
    Reaches openHost (fun _ _ => none) (plainRequest ceiling) where
  early := rfl
  task := Or.inr ⟨"fix the build", rfl, by decide⟩
  opens := by
    have hskills : tenantSkillsRoot openHost (plainRequest ceiling).runsRoot.parent.parent
        (plainRequest ceiling).skillsRoot "acme" = .ok (.ofStr "/srv/skills") := rfl
    exact bind_isOk.mpr ⟨_, hskills, _, rfl⟩
  free := rfl
  late := rfl
  resumable := fun h => absurd (show "start" = "resume" from h) (by decide)

/-- Without a ceiling the standalone worker starts the plain request as `_run` does. -/
theorem executeClaim_starts_alike_plain :
    StartsAlike (AsyncRunWorker.run openHost (fun _ _ => none) (plainRequest none))
      (executeClaim simplePython openHost (fun _ _ => none) (.ofStr "/srv") (plainClaim none)) :=
  have hpayload : Json.reloadDict (queueItem simplePython (plainRequest none)).payload
      = some (plainClaim none).payload := reload_dumpAsyncRequest (simplePython_keeps none)
  (executeClaim_starts_alike_iff (simplePython_keeps none) ⟨_, rfl⟩ rfl hpayload).mpr fun _ =>
    { makesDir := rfl
      opens := ⟨_, rfl⟩
      config := rfl
      ceiling := rfl
      resumed := fun h => absurd h (by decide)
      started := fun _ => ⟨rfl, rfl, rfl, List.cons_ne_nil _ _, "repo-chore", rfl, by decide,
        by decide⟩ }

/-- Under the ceiling that the API sets by default, it starts it without the ceiling. -/
theorem executeClaim_drops_ceiling :
    simplePython.Keeps (plainRequest (some 300)) ∧
    (plainClaim (some 300)).key = (queueItem simplePython (plainRequest (some 300))).key ∧
    Json.reloadDict (queueItem simplePython (plainRequest (some 300))).payload
      = some (plainClaim (some 300)).payload ∧
    ¬ StartsAlike (AsyncRunWorker.run openHost (fun _ _ => none) (plainRequest (some 300)))
      (executeClaim simplePython openHost (fun _ _ => none) (.ofStr "/srv")
        (plainClaim (some 300))) := by
  refine ⟨simplePython_keeps _, rfl, reload_dumpAsyncRequest (simplePython_keeps _), ?_⟩
  intro halike
  have h := unaltered_of_alike (simplePython_keeps _) ⟨_, rfl⟩ rfl rfl halike
    (plainRequest_reaches _)
  exact nomatch h.ceiling

end Recertia.Worker
