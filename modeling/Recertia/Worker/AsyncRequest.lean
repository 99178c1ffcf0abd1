import Recertia.Contract.RunState
import Recertia.Lib.Fallible
import Recertia.Lib.PosixPath
import Recertia.Lib.PyJson
import Recertia.Queue.RunQueue

/-! `AsyncRunRequest`, and the payload that carries one through the run queue. -/
namespace Recertia.Worker

open Json (PyValue PyDict PyFloat)
open Json.PyValue (ofOption)
open PosixPath (PurePath)
open Graph (Arm Budget TaskCriterion)

/-- A goal with the fields that only a request and its task read. -/
structure Goal extends Graph.Goal where
  goalId : Option String := none
  taskClass : Option String := none
  preferences : List (String × String) := []
  meaOptIn : Bool := false

inductive ProviderName
  | stub
  | anthropic
  | openai
  deriving DecidableEq, Repr

def ProviderName.text : ProviderName → String
  | .stub => "stub"
  | .anthropic => "anthropic"
  | .openai => "openai"

def ProviderName.ofText? : String → Option ProviderName
  | "stub" => some .stub
  | "anthropic" => some .anthropic
  | "openai" => some .openai
  | _ => none

def defaultTimeoutS : PyFloat := .finite ⟨"60.0", by decide⟩

structure ModelConfig where
  provider : ProviderName := .stub
  modelId : String := "stub"
  apiKeyEnv : String := ""
  verifierModelId : Option String := none
  timeoutS : PyFloat := defaultTimeoutS
  maxRetries : Int := 2
  deriving DecidableEq, Repr

/-- A pydantic model: `model_dump(mode="json")` and `model_validate`. -/
structure Schema (α : Type) where
  dump : α → PyDict
  validate : PyValue → Option α

/-- The dump is a JSON value, and validating it gives the object back. -/
structure Schema.Keeps {α : Type} (schema : Schema α) (a : α) : Prop where
  reload : Json.reloadDict (schema.dump a) = some (schema.dump a)
  validate : schema.validate (.dict (schema.dump a)) = some a

/-- What the language and pydantic give: `repr` of a value that is no string, and the models
of the contracts. -/
structure Python where
  repr : PyValue → String
  goal : Schema Goal
  criterion : Schema TaskCriterion
  budget : Schema Budget

/-- `str(v)` -/
def Python.str (py : Python) : PyValue → String
  | .str s => s
  | v => py.repr v

/-- The request without its cancel callback, which is not persisted. -/
structure AsyncRunRequest where
  runId : String
  tenantId : String
  goal : Option Goal
  request : Option String
  taskClass : Option String
  criteria : List TaskCriterion
  budget : Budget
  workdir : PurePath
  script : Option (List String)
  arm : Arm
  approveTools : Bool
  skillsRoot : PurePath
  factsRoot : PurePath
  runsRoot : PurePath
  indexPath : PurePath
  modelConfig : Option ModelConfig := none
  maxCriterionTimeoutS : Option Int := none
  mode : String := "async"
  action : String := "start"

def armText : Arm → String
  | .treatment => "treatment"
  | .control => "control"
  | .shadow => "shadow"
  | .practice => "practice"

/-- `asdict(config)` -/
def ModelConfig.asdict (config : ModelConfig) : PyDict :=
  [("provider", .str config.provider.text),
   ("model_id", .str config.modelId),
   ("api_key_env", .str config.apiKeyEnv),
   ("verifier_model_id", ofOption .str config.verifierModelId),
   ("timeout_s", .float config.timeoutS),
   ("max_retries", .int config.maxRetries)]

def dumpAsyncRequest (py : Python) (req : AsyncRunRequest) : PyDict :=
  [("run_id", .str req.runId),
   ("tenant_id", .str req.tenantId),
   ("goal", ofOption (fun goal => .dict (py.goal.dump goal)) req.goal),
   ("request", ofOption .str req.request),
   ("task_class", ofOption .str req.taskClass),
   ("criteria", .list (req.criteria.map fun item => .dict (py.criterion.dump item))),
   ("budget", .dict (py.budget.dump req.budget)),
   ("workdir", .str req.workdir.str),
   ("script", ofOption (fun script => .list (script.map .str)) req.script),
   ("arm", .str (armText req.arm)),
   ("approve_tools", .bool req.approveTools),
   ("skills_root", .str req.skillsRoot.str),
   ("facts_root", .str req.factsRoot.str),
   ("runs_root", .str req.runsRoot.str),
   ("index_path", .str req.indexPath.str),
   ("model_config", ofOption (fun config => .dict config.asdict) req.modelConfig),
   ("max_criterion_timeout_s", ofOption .int req.maxCriterionTimeoutS),
   ("mode", .str req.mode),
   ("action", .str req.action)]

/-- The item that the API enqueues for a request. -/
def queueItem (py : Python) (req : AsyncRunRequest) : Queue.QueueItem PyDict where
  tenantId := req.tenantId
  runId := req.runId
  kind := "run"
  payload := dumpAsyncRequest py req

inductive LoadError
  | invalidGoal
  | invalidCriterion
  | notIterable
  | invalidBudget
  | unexpectedKeyword (key : String)
  | illTyped (key : String)
  deriving DecidableEq, Repr

def orError {ε α : Type} (error : ε) : Option α → Except ε α
  | none => .error error
  | some a => .ok a

/-- The value of a keyword, or the default of its field. -/
def keyword {α : Type} (items : PyDict) (key : String) (default : α) (read : PyValue → Option α) :
    Except LoadError α :=
  if items.any fun item => item.1 == key then orError (.illTyped key) (read (items.get key))
  else .ok default

def modelConfigKeys : List String :=
  ["provider", "model_id", "api_key_env", "verifier_model_id", "timeout_s", "max_retries"]

/-- `ModelConfig(**items)`. The dataclass takes a value of any type; the model has only those
of the declared types. -/
def ModelConfig.ofKeywords (items : PyDict) : Except LoadError ModelConfig := do
  match items.find? fun item => !modelConfigKeys.contains item.1 with
  | some item => .error (.unexpectedKeyword item.1)
  | none =>
    let provider ← keyword items "provider" .stub fun v => v.str?.bind ProviderName.ofText?
    let modelId ← keyword items "model_id" "stub" PyValue.str?
    let apiKeyEnv ← keyword items "api_key_env" "" PyValue.str?
    let verifierModelId ← keyword items "verifier_model_id" none fun
      | .null => some none
      | v => v.str?.map some
    let timeoutS ← keyword items "timeout_s" defaultTimeoutS fun
      | .float f => some f
      | _ => none
    let maxRetries ← keyword items "max_retries" 2 PyValue.int?
    return { provider, modelId, apiKeyEnv, verifierModelId, timeoutS, maxRetries }

def loadArm : PyValue → Arm
  | .str "control" => .control
  | .str "shadow" => .shadow
  | .str "practice" => .practice
  | _ => .treatment

/-- `[TaskCriterion.model_validate(item) for item in raw]` -/
def loadCriteria (py : Python) (raw : PyValue) : Except LoadError (List TaskCriterion) := do
  let items ← orError .notIterable raw.items?
  items.mapM fun item => orError .invalidCriterion (py.criterion.validate item)

/-- `Budget.model_validate(raw) if isinstance(raw, dict) else Budget()` -/
def loadBudget (py : Python) (raw : PyValue) : Except LoadError Budget :=
  match raw.dict? with
  | none => .ok default
  | some items => orError .invalidBudget (py.budget.validate (.dict items))

/-- `Goal.model_validate(raw) if isinstance(raw, dict) else None` -/
def loadGoal (py : Python) (raw : PyValue) : Except LoadError (Option Goal) :=
  match raw.dict? with
  | none => .ok none
  | some items => (orError .invalidGoal (py.goal.validate (.dict items))).map some

/-- `ModelConfig(**raw) if isinstance(raw, dict) else None` -/
def loadModelConfig (raw : PyValue) : Except LoadError (Option ModelConfig) :=
  match raw.dict? with
  | none => .ok none
  | some items => (ModelConfig.ofKeywords items).map some

/-- `str(payload.get(key) or default)` -/
def textOr (py : Python) (payload : PyDict) (key default : String) : String :=
  py.str ((payload.get key).orElse (.str default))

def loadAsyncRequest (py : Python) (payload : PyDict) : Except LoadError AsyncRunRequest := do
  let goal ← loadGoal py (payload.get "goal")
  let criteria ← loadCriteria py ((payload.get "criteria").orElse (.list []))
  let budget ← loadBudget py (payload.get "budget")
  let modelConfig ← loadModelConfig (payload.get "model_config")
  return {
    runId := textOr py payload "run_id" ""
    tenantId := textOr py payload "tenant_id" ""
    goal
    request := (payload.get "request").str?
    taskClass := (payload.get "task_class").str?
    criteria
    budget
    workdir := .ofStr (textOr py payload "workdir" ".")
    script := (payload.get "script").strings?
    arm := loadArm (payload.get "arm")
    approveTools := (payload.get "approve_tools").truthy
    skillsRoot := .ofStr (textOr py payload "skills_root" "skills")
    factsRoot := .ofStr (textOr py payload "facts_root" "facts")
    runsRoot := .ofStr (textOr py payload "runs_root" ".recertia/runs")
    indexPath := .ofStr (textOr py payload "index_path" ".recertia/skill_index.db")
    modelConfig
    maxCriterionTimeoutS := (payload.get "max_criterion_timeout_s").int?
    mode := textOr py payload "mode" "async"
    action := textOr py payload "action" "start" }

/-- What a payload must hold under each key to stand for a request. -/
structure Carries (py : Python) (payload : PyDict) (req : AsyncRunRequest) : Prop where
  runId : payload.get "run_id" = .str req.runId
  tenantId : payload.get "tenant_id" = .str req.tenantId
  goal : payload.get "goal" = ofOption (fun goal => .dict (py.goal.dump goal)) req.goal
  request : payload.get "request" = ofOption .str req.request
  taskClass : payload.get "task_class" = ofOption .str req.taskClass
  criteria : payload.get "criteria"
    = .list (req.criteria.map fun item => .dict (py.criterion.dump item))
  budget : payload.get "budget" = .dict (py.budget.dump req.budget)
  workdir : payload.get "workdir" = .str req.workdir.str
  script : payload.get "script" = ofOption (fun script => .list (script.map .str)) req.script
  arm : payload.get "arm" = .str (armText req.arm)
  approveTools : payload.get "approve_tools" = .bool req.approveTools
  skillsRoot : payload.get "skills_root" = .str req.skillsRoot.str
  factsRoot : payload.get "facts_root" = .str req.factsRoot.str
  runsRoot : payload.get "runs_root" = .str req.runsRoot.str
  indexPath : payload.get "index_path" = .str req.indexPath.str
  modelConfig : payload.get "model_config"
    = ofOption (fun config => .dict config.asdict) req.modelConfig
  maxCriterionTimeoutS : payload.get "max_criterion_timeout_s"
    = ofOption .int req.maxCriterionTimeoutS
  mode : payload.get "mode" = .str req.mode
  action : payload.get "action" = .str req.action
  maxSteps : payload.get "max_steps" = .null

theorem carries_dumpAsyncRequest (py : Python) (req : AsyncRunRequest) :
    Carries py (dumpAsyncRequest py req) req := by
  constructor <;> simp [dumpAsyncRequest, PyDict.get]

/-- The contracts of a request survive their dump. -/
structure Python.Keeps (py : Python) (req : AsyncRunRequest) : Prop where
  goal : ∀ goal ∈ req.goal, py.goal.Keeps goal
  criteria : ∀ item ∈ req.criteria, py.criterion.Keeps item
  budget : py.budget.Keeps req.budget

theorem Schema.Keeps.reload_dict {α : Type} {schema : Schema α} {a : α} (h : schema.Keeps a) :
    (PyValue.dict (schema.dump a)).reload = some (.dict (schema.dump a)) := by
  simp only [PyValue.reload, h.reload, Option.map_some]

theorem ModelConfig.reload_asdict (config : ModelConfig) :
    (PyValue.dict config.asdict).reload = some (.dict config.asdict) := by
  have hitems : Json.reloadDict config.asdict = some config.asdict := by
    apply Json.reloadDict_eq_self
    intro item hitem
    simp only [asdict, List.mem_cons, List.not_mem_nil, or_false] at hitem
    rcases hitem with rfl | rfl | rfl | rfl | rfl | rfl
    case inr.inr.inr.inl => exact Json.reload_ofOption fun _ _ => rfl
    all_goals rfl
  simp only [PyValue.reload, hitems, Option.map_some]

theorem reload_criteria {py : Python} {req : AsyncRunRequest} (h : py.Keeps req) :
    (PyValue.list (req.criteria.map fun item => .dict (py.criterion.dump item))).reload
      = some (.list (req.criteria.map fun item => .dict (py.criterion.dump item))) := by
  have hitems : Json.reloadList (req.criteria.map fun item => .dict (py.criterion.dump item))
      = some (req.criteria.map fun item => .dict (py.criterion.dump item)) := by
    apply Json.reloadList_eq_self
    intro v hv
    obtain ⟨item, hitem, rfl⟩ := List.mem_map.mp hv
    exact (h.criteria item hitem).reload_dict
  simp only [PyValue.reload, hitems, Option.map_some]

/-- A payload comes out of the queue as it was put in. -/
theorem reload_dumpAsyncRequest {py : Python} {req : AsyncRunRequest} (h : py.Keeps req) :
    Json.reloadDict (dumpAsyncRequest py req) = some (dumpAsyncRequest py req) := by
  have hgoal := Json.reload_ofOption (o := req.goal) fun goal hgoal => (h.goal goal hgoal).reload_dict
  have hscript := Json.reload_ofOption (o := req.script) fun script _ => Json.reload_strings script
  have hconfig := Json.reload_ofOption (o := req.modelConfig)
    fun config _ => ModelConfig.reload_asdict config
  have htext (o : Option String) : (ofOption PyValue.str o).reload = some (ofOption .str o) :=
    Json.reload_ofOption fun _ _ => rfl
  have hceiling : (ofOption PyValue.int req.maxCriterionTimeoutS).reload = some (ofOption .int _) :=
    Json.reload_ofOption fun _ _ => rfl
  have hstr (s : String) : (PyValue.str s).reload = some (.str s) := rfl
  have hbool (b : Bool) : (PyValue.bool b).reload = some (.bool b) := rfl
  apply Json.reloadDict_eq_self
  simp only [dumpAsyncRequest, List.forall_mem_cons, hgoal, hscript, hconfig, htext, hceiling,
    hstr, hbool, reload_criteria h, h.budget.reload_dict, List.not_mem_nil, false_imp_iff,
    implies_true, and_true]

theorem ModelConfig.ofKeywords_asdict (config : ModelConfig) :
    ofKeywords config.asdict = .ok config := by
  obtain ⟨provider, modelId, apiKeyEnv, verifierModelId, timeoutS, maxRetries⟩ := config
  cases provider <;> cases verifierModelId <;> rfl

theorem items?_list (vs : List PyValue) : (PyValue.list vs).items? = some vs := rfl

theorem validate_criteria {py : Python} {items : List TaskCriterion}
    (h : ∀ item ∈ items, py.criterion.Keeps item) :
    (items.map fun item => PyValue.dict (py.criterion.dump item)).mapM
      (fun item => orError LoadError.invalidCriterion (py.criterion.validate item))
      = .ok items := by
  induction items with
  | nil => rfl
  | cons item items ih =>
    have hitem := (h item List.mem_cons_self).validate
    have hitems := ih fun other hother => h other (List.mem_cons_of_mem _ hother)
    rw [List.map_cons, List.mapM_cons, hitem, hitems]
    rfl

theorem loadCriteria_dump {py : Python} {items : List TaskCriterion}
    (h : ∀ item ∈ items, py.criterion.Keeps item) :
    loadCriteria py (.list (items.map fun item => .dict (py.criterion.dump item))) = .ok items := by
  rw [loadCriteria, items?_list]
  exact validate_criteria h

theorem loadBudget_dump {py : Python} {budget : Budget} (h : py.budget.Keeps budget) :
    loadBudget py (.dict (py.budget.dump budget)) = .ok budget := by
  show orError _ (py.budget.validate (.dict (py.budget.dump budget))) = .ok budget
  rw [h.validate]
  rfl

theorem loadArm_text (arm : Arm) : loadArm (.str (armText arm)) = arm := by cases arm <;> rfl

theorem str?_ofOption (o : Option String) : (ofOption PyValue.str o).str? = o := by
  cases o <;> rfl

theorem int?_ofOption (o : Option Int) : (ofOption PyValue.int o).int? = o := by
  cases o <;> rfl

theorem strings?_ofOption (o : Option (List String)) :
    (ofOption (fun script => .list (script.map PyValue.str)) o).strings? = o := by
  cases o with
  | none => rfl
  | some script => exact Json.strings?_map_str script

/-- `text or default` -/
def textOrElse (text default : String) : String := if text ≠ "" then text else default

theorem str_orElse (py : Python) (text default : String) :
    py.str ((PyValue.str text).orElse (.str default)) = textOrElse text default := by
  by_cases h : text = "" <;> simp [PyValue.orElse, PyValue.truthy, textOrElse, Python.str, h]

theorem textOrElse_path (path : PurePath) (default : String) :
    PurePath.ofStr (textOrElse path.str default) = path := by
  rw [textOrElse, if_pos path.str_ne_empty, PurePath.ofStr_str]

theorem loadGoal_dump {py : Python} {goal : Option Goal} (h : ∀ g ∈ goal, py.goal.Keeps g) :
    loadGoal py (ofOption (fun goal => .dict (py.goal.dump goal)) goal) = .ok goal := by
  cases goal with
  | none => rfl
  | some goal =>
    show (orError _ (py.goal.validate (.dict (py.goal.dump goal)))).map some = .ok (some goal)
    rw [(h goal rfl).validate]
    rfl

theorem loadModelConfig_dump (config : Option ModelConfig) :
    loadModelConfig (ofOption (fun config => .dict config.asdict) config) = .ok config := by
  cases config with
  | none => rfl
  | some config =>
    show (ModelConfig.ofKeywords config.asdict).map some = .ok (some config)
    rw [ModelConfig.ofKeywords_asdict]
    rfl

theorem orElse_list_nil (vs : List PyValue) :
    (PyValue.list vs).orElse (.list []) = .list vs := by
  cases vs <;> rfl

theorem textOrElse_empty (text : String) : textOrElse text "" = text := by
  by_cases h : text = "" <;> simp [textOrElse, h]

/-- Loading a dumped request gives it back, but for an empty mode or action, which becomes
the default. -/
theorem loadAsyncRequest_carried {py : Python} {payload : PyDict} {req : AsyncRunRequest}
    (hcarries : Carries py payload req) (hkeeps : py.Keeps req) :
    loadAsyncRequest py payload = .ok { req with
      mode := textOrElse req.mode "async"
      action := textOrElse req.action "start" } := by
  have hgoal : loadGoal py (payload.get "goal") = .ok req.goal := by
    rw [hcarries.goal]
    exact loadGoal_dump hkeeps.goal
  have hcriteria : loadCriteria py ((payload.get "criteria").orElse (.list []))
      = .ok req.criteria := by
    rw [hcarries.criteria, orElse_list_nil]
    exact loadCriteria_dump hkeeps.criteria
  have hbudget : loadBudget py (payload.get "budget") = .ok req.budget := by
    rw [hcarries.budget]
    exact loadBudget_dump hkeeps.budget
  have hconfig : loadModelConfig (payload.get "model_config") = .ok req.modelConfig := by
    rw [hcarries.modelConfig]
    exact loadModelConfig_dump req.modelConfig
  rw [loadAsyncRequest, hgoal, hcriteria, hbudget, hconfig]
  simp only [textOr, hcarries.runId, hcarries.tenantId, hcarries.request, hcarries.taskClass,
    hcarries.workdir, hcarries.script, hcarries.arm, hcarries.approveTools, hcarries.skillsRoot,
    hcarries.factsRoot, hcarries.runsRoot, hcarries.indexPath, hcarries.maxCriterionTimeoutS,
    hcarries.mode, hcarries.action, str_orElse, textOrElse_path, textOrElse_empty, str?_ofOption,
    int?_ofOption, strings?_ofOption, loadArm_text]
  rfl

end Recertia.Worker
