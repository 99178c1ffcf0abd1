import Mathlib.Data.List.Dedup
import Recertia.Claims.Scheduler
import Recertia.Lib.Fallible
import Recertia.Lib.Kahn

/-! The steps of a skill, and the validators that make their input bindings a graph without cycles
or dangling sources. -/
namespace Recertia.Solver

open Claims (ResourceClaim)

inductive ValueFrom
  | stdout | stderr | exitCode
  deriving DecidableEq, Repr

structure StepOutput where
  name : String
  valueFrom : ValueFrom := .stdout
  deriving DecidableEq, Repr

structure InputBinding where
  input : String
  sourceStep : String
  output : String
  deriving DecidableEq, Repr

structure StepLoop where
  maxIterations : ℕ
  bounds : 1 ≤ maxIterations ∧ maxIterations ≤ 10

/-- A step, without the templates of its inputs, which only its tool sees. -/
structure Step where
  id : String
  tool : Option String := none
  outputs : List StepOutput := []
  inputBindings : List InputBinding := []
  resources : List ResourceClaim := []
  loop : Option StepLoop := none
  outputsUnique : (outputs.map StepOutput.name).Nodup
  inputsUnique : (inputBindings.map InputBinding.input).Nodup

/-- `step_dependencies` -/
def stepDependencies (step : Step) : List String :=
  (step.inputBindings.map InputBinding.sourceStep).dedup

def Step.hasId (id : String) (step : Step) : Bool := step.id == id

def Step.declares (step : Step) (output : String) : Bool :=
  (step.outputs.map StepOutput.name).contains output

/-- The checks on one binding, against `steps_by_id`. -/
def checkBinding (steps : List Step) (step : Step) (binding : InputBinding) :
    Except String Unit :=
  if binding.sourceStep = step.id then
    .error ("step '" ++ step.id ++ "' cannot bind its own output")
  else
    match steps.find? (Step.hasId binding.sourceStep) with
    | none => .error ("step '" ++ step.id ++ "' binds unknown source step '" ++
        binding.sourceStep ++ "'")
    | some source =>
      if source.declares binding.output then .ok ()
      else .error ("step '" ++ step.id ++ "' binds unknown output " ++ binding.sourceStep ++ "." ++
        binding.output)

/-- The dependencies of the step with this id. -/
def dependenciesOf (steps : List Step) (id : String) : List String :=
  match steps.find? (Step.hasId id) with
  | none => []
  | some step => stepDependencies step

/-- `visited`, at the end of the cycle detection -/
def visited (steps : List Step) : ℕ :=
  (Kahn.order (steps.map Step.id) (dependenciesOf steps)).length

/-- `_steps_form_a_dag` -/
def stepsFormADag (steps : List Step) : Except String Unit := do
  if (steps.map Step.id).dedup.length ≠ steps.length then throw "step ids must be unique"
  let _ ← steps.mapM fun step => step.inputBindings.mapM (checkBinding steps step)
  if visited steps ≠ steps.length then throw "step input-binding graph contains a cycle"

/-- A version that passes its validators; those of its other fields have no bearing here. -/
structure SkillVersion where
  steps : List Step
  nonempty : steps ≠ []
  dag : stepsFormADag steps = .ok ()

variable {steps : List Step}

theorem checkBinding_eq_ok {step : Step} {binding : InputBinding} :
    checkBinding steps step binding = .ok () ↔ binding.sourceStep ≠ step.id ∧
      ∃ source, steps.find? (Step.hasId binding.sourceStep) = some source ∧
        source.declares binding.output = true := by
  unfold checkBinding
  by_cases hself : binding.sourceStep = step.id
  · rw [if_pos hself]
    exact ⟨fun h => (by cases h), fun h => absurd hself h.1⟩
  · rw [if_neg hself]
    cases hfind : steps.find? (Step.hasId binding.sourceStep) with
    | none => exact ⟨fun h => (by cases h), fun ⟨_, source, h, _⟩ => (by cases h)⟩
    | some source =>
      by_cases hdeclared : source.declares binding.output = true
      · dsimp only
        rw [if_pos hdeclared]
        exact ⟨fun _ => ⟨hself, source, rfl, hdeclared⟩, fun _ => rfl⟩
      · dsimp only
        rw [if_neg hdeclared]
        refine ⟨fun h => (by cases h), fun ⟨_, source', hsource, h⟩ => ?_⟩
        rw [← Option.some.inj hsource] at h
        exact absurd h hdeclared

theorem find_hasId {source : Step} {id : String}
    (h : steps.find? (Step.hasId id) = some source) : source ∈ steps ∧ source.id = id := by
  have hid : Step.hasId id source = true := List.find?_some h
  exact ⟨List.mem_of_find?_eq_some h, beq_iff_eq.mp hid⟩

/-- With distinct ids, a step is found under its own. -/
theorem find_hasId_self (hnodup : (steps.map Step.id).Nodup) {step : Step} (hstep : step ∈ steps) :
    steps.find? (Step.hasId step.id) = some step := by
  have hsome : (steps.find? (Step.hasId step.id)).isSome = true :=
    List.find?_isSome.mpr ⟨step, hstep, beq_self_eq_true step.id⟩
  obtain ⟨source, hsource⟩ := Option.isSome_iff_exists.mp hsome
  obtain ⟨hmem, hid⟩ := find_hasId hsource
  rw [hsource, List.inj_on_of_nodup_map hnodup hmem hstep hid]

/-- What the validators have checked. -/
theorem stepsFormADag_eq_ok (h : stepsFormADag steps = .ok ()) :
    (steps.map Step.id).Nodup ∧
    (∀ step ∈ steps, ∀ binding ∈ step.inputBindings, checkBinding steps step binding = .ok ()) ∧
    visited steps = steps.length := by
  unfold stepsFormADag at h
  obtain ⟨hunique, h⟩ := Fallible.unless_eq_ok.mp h
  obtain ⟨checked, hchecked, h⟩ := Fallible.bind_eq_ok.mp h
  refine ⟨?_, fun step hstep binding hbinding => ?_, ?_⟩
  · have hlength : (steps.map Step.id).dedup.length = (steps.map Step.id).length := by
      rw [List.length_map]
      exact not_not.mp hunique
    rw [← (List.dedup_sublist (steps.map Step.id)).eq_of_length hlength]
    exact List.nodup_dedup _
  · obtain ⟨units, hunits⟩ := Fallible.mapM_isOk.mp ⟨checked, hchecked⟩ step hstep
    obtain ⟨_, hbound⟩ := Fallible.mapM_isOk.mp ⟨units, hunits⟩ binding hbinding
    exact hbound
  · by_contra hcycle
    rw [if_pos hcycle] at h
    cases h

namespace SkillVersion
variable (version : SkillVersion)

theorem ids_nodup : (version.steps.map Step.id).Nodup := (stepsFormADag_eq_ok version.dag).1

/-- A binding names an output that a step of the version declares. -/
theorem exists_source {step : Step} (hstep : step ∈ version.steps) {binding : InputBinding}
    (hbinding : binding ∈ step.inputBindings) : ∃ source ∈ version.steps,
      source.id = binding.sourceStep ∧ source.declares binding.output = true := by
  have hchecked := (stepsFormADag_eq_ok version.dag).2.1 step hstep binding hbinding
  obtain ⟨-, source, hfind, hdeclared⟩ := checkBinding_eq_ok.mp hchecked
  obtain ⟨hmem, hid⟩ := find_hasId hfind
  exact ⟨source, hmem, hid, hdeclared⟩

/-- As long as a step is not done, one of them has all its dependencies done. -/
theorem exists_ready {done : String → Prop} (hleft : ∃ step ∈ version.steps, ¬ done step.id) :
    ∃ step ∈ version.steps, ¬ done step.id ∧ ∀ d ∈ stepDependencies step, done d := by
  have hself : ∀ step ∈ version.steps,
      dependenciesOf version.steps step.id = stepDependencies step := by
    intro step hstep
    unfold dependenciesOf
    rw [find_hasId_self version.ids_nodup hstep]
  have hdeps : ∀ id ∈ version.steps.map Step.id,
      (dependenciesOf version.steps id).Nodup := by
    intro id hid
    obtain ⟨step, hstep, rfl⟩ := List.mem_map.mp hid
    rw [hself step hstep]
    exact List.nodup_dedup _
  have hcount : (Kahn.order (version.steps.map Step.id) (dependenciesOf version.steps)).length =
      (version.steps.map Step.id).length := by
    rw [List.length_map]
    exact (stepsFormADag_eq_ok version.dag).2.2
  obtain ⟨step, hstep, hnot⟩ := hleft
  obtain ⟨id, hid, hnot', hready⟩ := Kahn.exists_ready version.ids_nodup hdeps hcount
    ⟨step.id, List.mem_map_of_mem hstep, hnot⟩
  obtain ⟨first, hfirst, rfl⟩ := List.mem_map.mp hid
  rw [hself first hfirst] at hready
  exact ⟨first, hfirst, hnot', hready⟩

end SkillVersion

end Recertia.Solver
