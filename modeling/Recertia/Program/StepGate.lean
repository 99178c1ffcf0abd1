import Recertia.Program.StatusMachine

/-! The gate between steps, over every sequence of operations: which steps may have started, and
what a succeeded step is bound to. -/
namespace Recertia.Program

open Api (RunRecord)
open Transition

/-- `status in {"queued", "running", "succeeded"}` -/
def StepStatus.started : StepStatus → Bool
  | .queued => true
  | .running => true
  | .succeeded => true
  | _ => false

/-- A run of the step has been seen with a terminal in the step's gate. -/
def Bound (reported : String → List String) (step : StepData) : Prop :=
  ∃ runId, step.currentRunId = some runId ∧
    ∃ terminal ∈ reported runId, step.acceptanceGate.terminalIn.contains terminal = true

/-- A started step has only succeeded and skipped ones below it, and a succeeded one its run. -/
structure Gated (reported : String → List String) (steps : List MigrationStep) : Prop where
  order : ∀ s ∈ steps, ∀ t ∈ steps, t.ordinal < s.ordinal → s.status.started = true →
    t.status.done = true
  bound : ∀ s ∈ steps, s.status = .succeeded → Bound reported s.toStepData

/-- The gate takes the run by its status: no terminal in the gate has been seen of it. -/
def ByStatus (env : Env) (reported : String → List String) (gate : List String)
    (runId : String) : Prop :=
  ∃ rec, env.runs runId = some rec ∧ gate.contains (runTerminal rec) = true ∧
    ∀ terminal ∈ report env reported runId, gate.contains terminal = false

/-- A step in flight that a refresh takes by the status of its run. -/
def FlightByStatus (env : Env) (reported : String → List String) (prog : MigrationProgram) :
    Prop :=
  ∃ s ∈ prog.steps, s.status.inFlight = true ∧ ∃ runId, s.currentRunId = some runId ∧
    ByStatus env reported s.acceptanceGate.terminalIn runId

/-- The operations that refresh what they save. -/
def Operation.refreshes : Operation → Bool
  | .get => true
  | .accept _ => true
  | .runStep .. => true
  | .skipStep .. => true
  | _ => false

/-- What lets a step past its gate, by a call that is permitted: a payload with such a step in it, a
gate that names a status, a bind above a step that is neither succeeded nor skipped, and a failing
seed below a started one. -/
inductive OpensGate (w : World) : Label → Prop
  | created (env : Env) (tenantId programId : String) (body : ProgramFields)
      (accepted : (create tenantId programId body).isOk = true)
      (ungated : ¬ Gated (report env w.reported) body.steps) :
      OpensGate w (.create env tenantId programId body)
  | replaced (env : Env) (body : ProgramFields) (ifMatch : Option ℕ) (prog : MigrationProgram)
      (here : w.program = some prog) (permitted : env.permits "programs.write" = true)
      (accepted : (replace body ifMatch prog).save.isSome = true)
      (ungated : ¬ Gated (report env w.reported) body.steps) :
      OpensGate w (.operate env (.replace body ifMatch))
  | byStatus (env : Env) (op : Operation) (prog : MigrationProgram)
      (here : w.program = some prog) (refreshes : op.refreshes = true)
      (accepted : (op.compute env prog).save.isSome = true)
      (flight : FlightByStatus env w.reported prog) : OpensGate w (.operate env op)
  | bound (env : Env) (stepId : String) (body : StepRunBody) (prog refreshed : MigrationProgram)
      (step : MigrationStep) (next : MigrationProgram) (runId : String)
      (here : w.program = some prog) (permitted : env.permits "programs.write" = true)
      (load : loadStep env prog stepId = some (refreshed, step))
      (accepted : applyRunStep env env body refreshed step = .ok (.bound next runId))
      (started : ∀ rec, env.runs runId = some rec →
        (bindStatus rec step.acceptanceGate.terminalIn).started = true)
      (early : (∃ t ∈ refreshed.steps, t.ordinal < step.ordinal ∧ t.status.done = false) ∨
        ByStatus env w.reported step.acceptanceGate.terminalIn runId) :
      OpensGate w (.operate env (.runStep stepId body))
  | seeded (env : Env) (stepId : String) (checkout : Except String String)
      (prog : MigrationProgram) (step : MigrationStep) (here : w.program = some prog)
      (permitted : env.permits "programs.write" = true)
      (find : findStep prog stepId = some step) (refused : seedRefused prog checkout = true)
      (above : ∃ s ∈ prog.steps, step.ordinal < s.ordinal ∧ s.status.started = true) :
      OpensGate w (.operate env (.seedWorkdir stepId checkout))

theorem gated_report {env : Env} {reported : String → List String} {steps : List MigrationStep}
    (h : Gated reported steps) : Gated (report env reported) steps where
  order := h.order
  bound := fun s hs hdone => by
    obtain ⟨runId, hrun, terminal, hterminal, hgate⟩ := h.bound s hs hdone
    refine ⟨runId, hrun, terminal, ?_, hgate⟩
    unfold report
    split
    · exact hterminal
    · exact List.mem_append_right _ hterminal

/-- A change of the data that starts no step, keeps the done ones and binds what succeeds. -/
theorem gated_mapSteps {reported : String → List String} {prog : MigrationProgram}
    {f : MigrationStep → StepData} (h : Gated reported prog.steps)
    (hstarted : ∀ s ∈ prog.steps, (f s).status.started = true → s.status.started = true)
    (hdone : ∀ s ∈ prog.steps, s.status.done = true → (f s).status.done = true)
    (hbound : ∀ s ∈ prog.steps, (f s).status = .succeeded → Bound reported (f s)) :
    Gated reported (prog.mapSteps f).steps := by
  constructor
  · intro s' hs' t' ht' hlt hstart
    obtain ⟨s, hs, rfl⟩ := mem_mapSteps.mp hs'
    obtain ⟨t, ht, rfl⟩ := mem_mapSteps.mp ht'
    exact hdone t ht (h.order s hs t ht hlt (hstarted s hs hstart))
  · intro s' hs' hsucceeded
    obtain ⟨s, hs, rfl⟩ := mem_mapSteps.mp hs'
    exact hbound s hs hsucceeded

/-- A change of one step, where the gate allows its new status below and above it. -/
theorem gated_setStep {reported : String → List String} {prog : MigrationProgram}
    {stepId : String} {step : MigrationStep} {updated : StepData}
    (h : Gated reported prog.steps) (hfind : findStep prog stepId = some step)
    (hlower : updated.status.started = true →
      ∀ t ∈ prog.steps, t.ordinal < step.ordinal → t.status.done = true)
    (habove : (∃ s ∈ prog.steps, step.ordinal < s.ordinal ∧ s.status.started = true) →
      updated.status.done = true)
    (hbound : updated.status = .succeeded → Bound reported updated) :
    Gated reported (replaceStep prog stepId updated).steps := by
  obtain ⟨hmem, hid⟩ := findStep_spec hfind
  have hone : ∀ s ∈ prog.steps, s.stepId = stepId → s = step := fun s hs hsid =>
    step_unique hs hmem (hsid.trans hid.symm)
  constructor
  · intro s' hs' t' ht' hlt hstart
    obtain ⟨s, hs, rfl⟩ := mem_replaceStep.mp hs'
    obtain ⟨t, ht, rfl⟩ := mem_replaceStep.mp ht'
    dsimp only at hlt hstart ⊢
    -- Either end can be the step that changes, but not both: their ordinals differ.
    by_cases hsid : s.stepId = stepId
    · rw [if_pos hsid] at hstart
      have hs_eq := hone s hs hsid
      have htid : t.stepId ≠ stepId := by
        intro htid
        rw [hs_eq, hone t ht htid] at hlt
        exact lt_irrefl _ hlt
      rw [if_neg htid]
      exact hlower hstart t ht (hs_eq ▸ hlt)
    · rw [if_neg hsid] at hstart
      by_cases htid : t.stepId = stepId
      · rw [if_pos htid]
        have ht_eq := hone t ht htid
        exact habove ⟨s, hs, ht_eq ▸ hlt, hstart⟩
      · rw [if_neg htid]
        exact h.order s hs t ht hlt hstart
  · intro s' hs' hsucceeded
    obtain ⟨s, hs, rfl⟩ := mem_replaceStep.mp hs'
    dsimp only at hsucceeded ⊢
    split at hsucceeded
    · rename_i hsid
      rw [if_pos hsid]
      exact hbound hsucceeded
    · rename_i hsid
      rw [if_neg hsid]
      exact h.bound s hs hsucceeded

/-- Another text of a step keeps the gate. -/
theorem gated_annotate {reported : String → List String} {prog : MigrationProgram}
    {stepId : String} {step : MigrationStep} {updated : StepData}
    (h : Gated reported prog.steps) (hfind : findStep prog stepId = some step)
    (hsame : Annotates step updated) :
    Gated reported (replaceStep prog stepId updated).steps := by
  obtain ⟨hmem, -⟩ := findStep_spec hfind
  apply gated_setStep h hfind
  · intro hstart t ht hlt
    exact h.order step hmem t ht hlt (hsame.status ▸ hstart)
  · intro habove
    obtain ⟨s, hs, hlt, hstart⟩ := habove
    rw [hsame.status]
    exact h.order s hs step hmem hlt hstart
  · intro hdone
    obtain ⟨runId, hcurrent, hterminal⟩ := h.bound step hmem (hsame.status ▸ hdone)
    exact ⟨runId, hsame.run.trans hcurrent, by rw [hsame.gate]; exact hterminal⟩

/-- A gate that takes a run takes one of its terminals, or its status. -/
theorem bound_of_gate {env : Env} {reported : String → List String} {gate : List String}
    {runId : String} {rec : RunRecord} (hrun : env.runs runId = some rec)
    (hgate : gate.contains (runTerminal rec) = true) (hnot : ¬ ByStatus env reported gate runId) :
    ∃ terminal ∈ report env reported runId, gate.contains terminal = true := by
  by_contra hnone
  refine hnot ⟨rec, hrun, hgate, fun terminal hterminal => ?_⟩
  by_contra htaken
  exact hnone ⟨terminal, hterminal, by simpa using htaken⟩

theorem readyStep_flags (prog : MigrationProgram) (s : MigrationStep) :
    (readyStep prog s).status.started = s.status.started ∧
      (readyStep prog s).status.done = s.status.done ∧
      (readyStep prog s).status.inFlight = s.status.inFlight := by
  rcases readyStep_status prog s with hsame | ⟨hplanned, hready⟩
  · rw [hsame]
    exact ⟨rfl, rfl, rfl⟩
  · rw [hplanned, hready]
    exact ⟨rfl, rfl, rfl⟩

theorem succeeded_iff {status : StepStatus} :
    status = .succeeded ↔ status.done = true ∧ status.started = true := by
  cases status <;> simp [StepStatus.done, StepStatus.started]

/-- Marking what is ready keeps the gate. -/
theorem gated_ready {reported : String → List String} {prog other : MigrationProgram}
    (h : Gated reported prog.steps) : Gated reported (prog.mapSteps (readyStep other)).steps := by
  apply gated_mapSteps h
  · intro s _ hstart
    rw [← (readyStep_flags other s).1]
    exact hstart
  · intro s _ hdone
    rw [(readyStep_flags other s).2.1]
    exact hdone
  · intro s hs hsucceeded
    obtain ⟨hstarted, hdone, -⟩ := readyStep_flags other s
    obtain ⟨hrun, hgate⟩ := readyStep_binding other s
    rw [succeeded_iff, hstarted, hdone, ← succeeded_iff] at hsucceeded
    obtain ⟨runId, hcurrent, hterminal⟩ := h.bound s hs hsucceeded
    exact ⟨runId, hrun.trans hcurrent, by rw [hgate]; exact hterminal⟩

theorem refreshedStatus_succeeded {rec : RunRecord} {step : StepData}
    (hflight : step.status.inFlight = true) (h : refreshedStatus rec step = .succeeded) :
    step.acceptanceGate.terminalIn.contains (runTerminal rec) = true := by
  unfold refreshedStatus at h
  dsimp only at h
  split at h
  · assumption
  · iterate 3
      split at h
      · cases h
    rw [h] at hflight
    cases hflight

/-- A refresh of the steps in flight keeps the gate, unless one is taken by its status. -/
theorem gated_flight {env : Env} {reported : String → List String} {prog : MigrationProgram}
    (h : Gated (report env reported) prog.steps) (hnot : ¬ FlightByStatus env reported prog) :
    Gated (report env reported)
      (prog.mapSteps fun s => refreshFlight env s.toStepData).steps := by
  have hquiet (s : MigrationStep) (hs : s.status.inFlight = false) :
      refreshFlight env s.toStepData = s.toStepData := refreshFlight_status env s.toStepData hs
  apply gated_mapSteps h
  · intro s _ hstart
    cases hflight : s.status.inFlight with
    | false =>
      rw [hquiet s hflight] at hstart
      exact hstart
    | true =>
      cases hstatus : s.status <;> rw [hstatus] at hflight <;> first | rfl | cases hflight
  · intro s _ hdone
    have hflight : s.status.inFlight = false := by
      cases hstatus : s.status <;> rw [hstatus] at hdone <;> first | rfl | cases hdone
    rw [hquiet s hflight]
    exact hdone
  · intro s hs hsucceeded
    obtain ⟨hrun, hgate⟩ := refreshFlight_binding env s.toStepData
    cases hrecord : flightRecord env s.toStepData with
    | none =>
      have hsame : refreshFlight env s.toStepData = s.toStepData := by
        simp only [refreshFlight, hrecord]
      rw [hsame] at hsucceeded ⊢
      exact h.bound s hs hsucceeded
    | some rec =>
      obtain ⟨hflight, runId, hcurrent, hrecordOf⟩ := flightRecord_spec hrecord
      have hstatus : refreshedStatus rec s.toStepData = .succeeded := by
        simp only [refreshFlight, hrecord] at hsucceeded
        exact hsucceeded
      have htaken := refreshedStatus_succeeded hflight hstatus
      refine ⟨runId, hrun.trans hcurrent, ?_⟩
      rw [hgate]
      exact bound_of_gate hrecordOf htaken fun hby => hnot ⟨s, hs, hflight, runId, hcurrent, hby⟩

theorem gated_refresh {env : Env} {reported : String → List String} {prog : MigrationProgram}
    (h : Gated (report env reported) prog.steps) (hnot : ¬ FlightByStatus env reported prog) :
    Gated (report env reported) (refreshStepStatuses env prog).steps := by
  obtain ⟨settled, hsteps⟩ := refresh_steps env prog
  rw [hsteps]
  exact gated_ready (gated_ready (gated_flight h hnot))

/-- The steps in flight of one program are in flight in the other, with their runs and gates. -/
def FlightWithin (q p : MigrationProgram) : Prop :=
  ∀ s' ∈ q.steps, s'.status.inFlight = true → ∃ s ∈ p.steps, s.status.inFlight = true ∧
    s.currentRunId = s'.currentRunId ∧ s.acceptanceGate = s'.acceptanceGate

theorem FlightWithin.trans {r q p : MigrationProgram} (hrq : FlightWithin r q)
    (hqp : FlightWithin q p) : FlightWithin r p := by
  intro s'' hs'' hflight
  obtain ⟨s', hs', hflight', hrun', hgate'⟩ := hrq s'' hs'' hflight
  obtain ⟨s, hs, hflight, hrun, hgate⟩ := hqp s' hs' hflight'
  exact ⟨s, hs, hflight, hrun.trans hrun', hgate.trans hgate'⟩

theorem flightByStatus_of_within {env : Env} {reported : String → List String}
    {q p : MigrationProgram} (hwithin : FlightWithin q p) (h : FlightByStatus env reported q) :
    FlightByStatus env reported p := by
  obtain ⟨s', hs', hflight', runId, hcurrent, hby⟩ := h
  obtain ⟨s, hs, hflight, hrun, hgate⟩ := hwithin s' hs' hflight'
  exact ⟨s, hs, hflight, runId, hrun.trans hcurrent, by rw [hgate]; exact hby⟩

theorem within_mapSteps {prog : MigrationProgram} {f : MigrationStep → StepData}
    (h : ∀ s ∈ prog.steps, (f s).status.inFlight = true → s.status.inFlight = true ∧
      (f s).currentRunId = s.currentRunId ∧ (f s).acceptanceGate = s.acceptanceGate) :
    FlightWithin (prog.mapSteps f) prog := by
  intro s' hs' hflight
  obtain ⟨s, hs, rfl⟩ := mem_mapSteps.mp hs'
  obtain ⟨hbefore, hrun, hgate⟩ := h s hs hflight
  exact ⟨s, hs, hbefore, hrun.symm, hgate.symm⟩

theorem within_ready (prog other : MigrationProgram) :
    FlightWithin (prog.mapSteps (readyStep other)) prog := by
  apply within_mapSteps
  intro s _ hflight
  exact ⟨(readyStep_flags other s).2.2 ▸ hflight, readyStep_binding other s⟩

theorem within_refresh (env : Env) (prog : MigrationProgram) :
    FlightWithin (refreshStepStatuses env prog) prog := by
  obtain ⟨settled, hsteps⟩ := refresh_steps env prog
  have hflight : FlightWithin (prog.mapSteps fun s => refreshFlight env s.toStepData) prog := by
    apply within_mapSteps
    intro s _ hflight
    refine ⟨?_, refreshFlight_binding env s.toStepData⟩
    by_contra hnot
    rw [Bool.not_eq_true] at hnot
    rw [refreshFlight_status env s.toStepData hnot, hnot] at hflight
    cases hflight
  have hready := ((within_ready (_ : MigrationProgram) settled).trans
    (within_ready (_ : MigrationProgram) prog)).trans hflight
  intro s' hs' hstatus
  exact hready s' (hsteps ▸ hs') hstatus

/-- A change of one step to a status that is not in flight. -/
theorem within_replaceStep {prog : MigrationProgram} {stepId : String} {updated : StepData}
    (h : updated.status.inFlight = false) : FlightWithin (replaceStep prog stepId updated) prog := by
  apply within_mapSteps
  intro s _ hflight
  split at hflight
  · rw [h] at hflight
    cases hflight
  · rename_i hsid
    rw [if_neg hsid]
    exact ⟨hflight, rfl, rfl⟩

/-- A bind keeps the gate when everything below the step is done and its gate takes a terminal. -/
theorem gated_bindRun {env : Env} {reported : String → List String} {prog : MigrationProgram}
    {step : MigrationStep} {rec : RunRecord} {runId : String}
    (h : Gated (report env reported) prog.steps)
    (hnot : ¬ FlightByStatus env reported prog)
    (hfind : findStep prog step.stepId = some step) (hbind : Bindable env prog step runId rec)
    (hlower : (bindStatus rec step.acceptanceGate.terminalIn).started = true →
      ∀ t ∈ prog.steps, t.ordinal < step.ordinal → t.status.done = true)
    (hby : (bindStatus rec step.acceptanceGate.terminalIn).started = true →
      ¬ ByStatus env reported step.acceptanceGate.terminalIn runId) :
    Gated (report env reported) (bindRun env prog step rec runId).steps := by
  obtain ⟨hmem, -⟩ := findStep_spec hfind
  have hopen : step.status.done = false ∧ step.status.inFlight = false := by
    rcases hbind.runnable with hs | hs | hs <;> rw [hs] <;> exact ⟨rfl, rfl⟩
  have hwith : Gated (report env reported) (withRun prog step rec runId).steps := by
    apply gated_setStep h hfind hlower
    · rintro ⟨s, hs, hlt, hstart⟩
      have hdone := h.order s hs step hmem hlt hstart
      rw [hopen.1] at hdone
      cases hdone
    · intro hdone
      dsimp only at hdone
      have htaken : step.acceptanceGate.terminalIn.contains (runTerminal rec) = true := by
        unfold bindStatus at hdone
        dsimp only at hdone
        split at hdone
        · assumption
        · split at hdone
          · split at hdone <;> cases hdone
          · cases hdone
      exact ⟨runId, rfl, bound_of_gate hbind.run htaken (hby (by rw [hdone]; rfl))⟩
  rcases bindRun_cases env prog step rec runId with ⟨-, hnext⟩ | ⟨hstatus, hnext⟩ | ⟨-, hnext⟩
  · rw [hnext]
    exact hwith
  · rw [hnext]
    apply gated_refresh
    · exact hwith
    · intro hflight
      refine hnot (flightByStatus_of_within ?_ hflight)
      apply within_replaceStep
      rw [hstatus]
      rfl
  · rw [hnext]
    exact hwith

/-- A call that binds a run keeps the gate of the program that it has loaded. -/
theorem gated_bound {env : Env} {reported : String → List String} {body : StepRunBody}
    {prog q : MigrationProgram} {step : MigrationStep} {runId : String}
    (h : Gated (report env reported) prog.steps) (hnot : ¬ FlightByStatus env reported prog)
    (hfind : findStep prog step.stepId = some step)
    (hgate : (∀ rec, env.runs runId = some rec →
        (bindStatus rec step.acceptanceGate.terminalIn).started = true) →
      (∀ t ∈ prog.steps, t.ordinal < step.ordinal → t.status.done = true) ∧
        ¬ ByStatus env reported step.acceptanceGate.terminalIn runId)
    (happly : applyRunStep env env body prog step = .ok (.bound q runId)) :
    Gated (report env reported) q.steps := by
  obtain ⟨hmem, -⟩ := findStep_spec hfind
  cases applyRunStep_cases happly with
  | bound ph runId rec asked other bindable =>
    have hhash : Gated (report env reported)
        (replaceStep prog step.stepId (hashed step ph).toStepData).steps :=
      gated_annotate h hfind ⟨rfl, rfl, rfl⟩
    have hrec (hstart : (bindStatus rec step.acceptanceGate.terminalIn).started = true) :
        ∀ found, env.runs runId = some found →
          (bindStatus found step.acceptanceGate.terminalIn).started = true := by
      intro found hfound
      have heq : found = rec := Option.some.inj (hfound.symm.trans bindable.run)
      rw [heq]
      exact hstart
    apply gated_bindRun hhash _ (findStep_replaceStep hfind _) bindable
    · intro hstart t' ht' hlt
      obtain ⟨t, ht, rfl⟩ := mem_replaceStep.mp ht'
      have hdone := (hgate (hrec hstart)).1 t ht hlt
      dsimp only
      split
      · rename_i htid
        rw [step_unique ht hmem htid] at hdone
        exact hdone
      · exact hdone
    · intro hstart
      exact (hgate (hrec hstart)).2
    · intro hflight
      refine hnot (flightByStatus_of_within ?_ hflight)
      apply within_mapSteps
      intro s hs hstatus
      split at hstatus
      · rename_i hsid
        rw [if_pos hsid, step_unique hs hmem hsid]
        exact ⟨hstatus, rfl, rfl⟩
      · rename_i hsid
        rw [if_neg hsid]
        exact ⟨hstatus, rfl, rfl⟩

/-- In every program of the store, the gate between the steps holds. -/
def GateHeld (w : World) : Prop := ∀ prog, w.program = some prog → Gated w.reported prog.steps

theorem gated_compute {env : Env} {reported : String → List String} {op : Operation}
    {prog q : MigrationProgram} (h : Gated (report env reported) prog.steps)
    (hsave : (op.compute env prog).save = some q)
    (hclean : ¬ OpensGate ⟨some prog, reported⟩ (.operate env op)) :
    Gated (report env reported) q.steps := by
  have hflight : op.refreshes = true → ¬ FlightByStatus env reported prog := fun hrefreshes hby =>
    hclean (.byStatus env op prog rfl hrefreshes (by rw [hsave]; rfl) hby)
  obtain ⟨hpermits, hsaved⟩ := compute_saved hsave
  cases hsaved with
  | refreshed hop hnext =>
    subst hop
    rw [hnext]
    exact gated_refresh h (hflight rfl)
  | replaced body ifMatch hop hreplace _ _ hsteps _ =>
    subst hop
    rw [hsteps]
    by_contra hungated
    exact hclean (.replaced env body ifMatch prog rfl hpermits (by rw [hreplace]; rfl) hungated)
  | accepted hop _ hnext =>
    subst hop
    rw [hnext]
    apply gated_refresh
    · exact h
    · exact hflight rfl
  | abandoned _ hnext =>
    rw [hnext]
    exact h
  | annotated stepId step updated hfind hsame hnext =>
    rw [hnext]
    exact gated_annotate h hfind hsame
  | rooted binding hnext =>
    rw [hnext]
    exact h
  | planned stepId body hop step ph hfind hnext =>
    subst hop
    obtain ⟨-, hid⟩ := findStep_spec hfind
    subst hid
    rw [hnext]
    have hrefresh := gated_refresh h (hflight rfl)
    exact gated_annotate hrefresh hfind ⟨rfl, rfl, rfl⟩
  | bound stepId body hop step runId hload happly =>
    subst hop
    obtain ⟨found, hfind, hpair⟩ := Option.map_eq_some_iff.mp hload
    cases hpair
    have hnot := hflight rfl
    obtain ⟨-, hid⟩ := findStep_spec hfind
    apply gated_bound (gated_refresh h hnot) _ (hid ▸ hfind) _ happly
    · intro hby
      exact hnot (flightByStatus_of_within (within_refresh env prog) hby)
    · intro hstarted
      have hearly : ¬ ((∃ t ∈ (refreshStepStatuses env prog).steps, t.ordinal < step.ordinal ∧
          t.status.done = false) ∨
          ByStatus env reported step.acceptanceGate.terminalIn runId) := fun hearly =>
        hclean (.bound env stepId body prog _ step q runId rfl hpermits hload happly hstarted
          hearly)
      rw [not_or] at hearly
      refine ⟨fun t ht hlt => ?_, hearly.2⟩
      by_contra hundone
      exact hearly.1 ⟨t, ht, hlt, by simpa using hundone⟩
  | skipped stepId note hop step _ hfind _ _ updated hstatus _ hnext =>
    subst hop
    rw [hnext]
    apply gated_refresh
    · apply gated_setStep h hfind
      · intro hstart
        rw [hstatus] at hstart
        cases hstart
      · intro _
        rw [hstatus]
        rfl
      · intro hdone
        rw [hstatus] at hdone
        cases hdone
    · intro hby
      refine hflight rfl (flightByStatus_of_within ?_ hby)
      have hwithin : FlightWithin (replaceStep prog stepId updated) prog := by
        apply within_replaceStep
        rw [hstatus]
        rfl
      exact hwithin
  | seedFailed stepId checkout hop step hfind hrefused hnext =>
    subst hop
    rw [hnext]
    obtain ⟨-, hid⟩ := findStep_spec hfind
    subst hid
    apply gated_setStep h hfind
    · intro hstart
      cases hstart
    · intro habove
      exact absurd (.seeded env step.stepId checkout prog step rfl hpermits hfind hrefused habove)
        hclean
    · intro hdone
      cases hdone

theorem gated_of_planned {steps : List MigrationStep} (reported : String → List String)
    (hplanned : ∀ s ∈ steps, s.status = .planned) : Gated reported steps := by
  constructor
  · intro s hs t _ _ hstart
    rw [hplanned s hs] at hstart
    cases hstart
  · intro s hs hsucceeded
    rw [hplanned s hs] at hsucceeded
    cases hsucceeded

theorem created_isOk {result : Except ServiceError MigrationProgram} {prog : MigrationProgram}
    (h : created result = some prog) : result.isOk = true := by
  cases result with
  | error error => cases h
  | ok found => rfl

theorem created_steps {tenantId programId : String} {body : ProgramFields}
    {prog : MigrationProgram} (h : created (create tenantId programId body) = some prog) :
    prog.steps = body.steps := by
  rcases created_cases with hnone | ⟨found, hfound, hfields, -, -⟩
  · rw [hnone] at h
    cases h
  · rw [hfound] at h
    cases h
    rw [hfields]

theorem gateHeld_step {w w' : World} {l : Label} (hinv : GateHeld w)
    (hstep : system.step w l = some w') (hclean : ¬ OpensGate w l) : GateHeld w' := by
  intro q hq
  obtain ⟨program, reported⟩ := w
  cases l with
  | create env tenantId programId body =>
    cases program with
    | some prog => cases hstep
    | none =>
      cases hstep
      rw [created_steps hq]
      by_contra hungated
      exact hclean (.created env tenantId programId body (created_isOk hq) hungated)
  | createFromPack env tenantId programId title intent taskClass steps =>
    cases program with
    | some prog => cases hstep
    | none =>
      cases hstep
      rw [created_steps hq]
      -- A pack brings planned steps only.
      apply gated_of_planned
      intro s hs
      obtain ⟨raw, -, rfl⟩ := List.mem_map.mp hs
      rfl
  | operate env op =>
    cases program with
    | none =>
      cases hstep
      cases hq
    | some prog =>
      cases hstep
      cases hq
      have hgated : Gated (report env reported) prog.steps := gated_report (hinv prog rfl)
      change Gated (report env reported) (stored env op prog).steps
      cases hsave : (op.compute env prog).save with
      | none =>
        simp only [stored, hsave]
        exact hgated
      | some next =>
        simp only [stored, hsave]
        have hnext : Gated (report env reported) next.steps := gated_compute hgated hsave hclean
        exact hnext

/-- Every program that a sequence reaches without opening the gate keeps it. -/
theorem step_gate_held {w : World} {ls : List Label}
    (hclean : system.Along (fun v l _ => ¬ OpensGate v l) {} ls)
    (hrun : system.run {} ls = some w) : GateHeld w := by
  apply System.run_invariant_along _ _ hclean hrun
  · exact fun v l v' hinv hstep hl => gateHeld_step hinv hstep hl
  · exact fun prog h => by cases h

def solvedRun : RunRecord where
  runId := "r1"
  taskClass := "repo-chore"
  status := "solved"
  createdAt := 0
  tenantId := "acme"
  terminal := some "solved"
  criteriaHash := some "sha256"

def solvedEnv : Env :=
  { quietEnv with runs := fun runId => if runId = "r1" then some solvedRun else none }

/-- An accepted program whose first step is skipped and whose second one is previewed. -/
def skipFirst : List Label :=
  [.create quietEnv "acme" "prog" twoSteps, .operate quietEnv (.accept true),
    .operate quietEnv (.skipStep "a" "done by hand"),
    .operate quietEnv (.runStep "b" { workdir := some "w", planOnly := true })]

/-- A run that has solved the second step is bound to it. -/
def bindSecond : Label :=
  .operate solvedEnv (.runStep "b" { workdir := some "w", bindRunId := some "r1" })

theorem quiet_flight (reported : String → List String) (prog : MigrationProgram) :
    ¬ FlightByStatus quietEnv reported prog := by
  rintro ⟨s, -, -, runId, -, rec, hrun, -⟩
  cases hrun

/-- The run has a terminal, so its status is not asked. -/
theorem not_byStatus_solved (reported : String → List String) (gate : List String)
    (runId : String) : ¬ ByStatus solvedEnv reported gate runId := by
  rintro ⟨rec, hrun, hgate, hnone⟩
  obtain ⟨rfl, rfl⟩ : runId = "r1" ∧ solvedRun = rec := by simpa [solvedEnv] using hrun
  have hsolved := hnone "solved" (List.mem_append_left _ (by decide))
  rw [show runTerminal solvedRun = "solved" by decide, hsolved] at hgate
  cases hgate

/-- No step below the one that the call loads is open. -/
def nothingEarly (env : Env) (stepId : String) (w : World) : Bool :=
  w.program.all fun prog => (loadStep env prog stepId).all fun loaded =>
    loaded.1.steps.all fun t => !decide (t.ordinal < loaded.2.ordinal) || t.status.done

theorem skipFirst_clean : system.Along (fun v l _ => ¬ OpensGate v l) {} skipFirst := by
  have hgated (reported : String → List String) : Gated reported twoSteps.steps :=
    gated_of_planned reported (by decide +kernel)
  have hlabels : ∀ l ∈ skipFirst, ∀ v, ¬ OpensGate v l := by
    intro l hl v hopens
    simp only [skipFirst, List.mem_cons, List.not_mem_nil, or_false] at hl
    rcases hl with rfl | rfl | rfl | rfl
    · cases hopens with
      | created env tenantId programId body accepted ungated => exact ungated (hgated _)
    · cases hopens with
      | byStatus env op prog here refreshes accepted flight => exact quiet_flight _ _ flight
    · cases hopens with
      | byStatus env op prog here refreshes accepted flight => exact quiet_flight _ _ flight
    · cases hopens with
      | byStatus env op prog here refreshes accepted flight => exact quiet_flight _ _ flight
      | bound env stepId body prog refreshed step next runId here permitted load accepted =>
        cases applyRunStep_cases accepted with
        | bound ph runId rec asked other bindable => cases asked
  have halong := System.along_of_labels (T := system) {} hlabels
  exact System.along_mono (fun v l _ _ h => h v) halong

theorem bindSecond_clean {w : World} (h : nothingEarly solvedEnv "b" w = true) :
    ¬ OpensGate w bindSecond := by
  intro hopens
  cases hopens with
  | byStatus env op prog here refreshes accepted flight =>
    obtain ⟨s, -, -, runId, -, hby⟩ := flight
    exact not_byStatus_solved _ _ _ hby
  | bound env stepId body prog refreshed step next runId here permitted load accepted started
      early =>
    rcases early with ⟨t, ht, hlt, hopen⟩ | hby
    · simp only [nothingEarly, here, load, Option.all_some, List.all_eq_true] at h
      have hdone := h t ht
      rw [hopen, Bool.or_false, Bool.not_eq_true', decide_eq_false_iff_not] at hdone
      exact hdone hlt
    · exact not_byStatus_solved _ _ _ hby

theorem step_gate_held_bindSecond :
    ∃ w prog, system.run {} (skipFirst ++ [bindSecond]) = some w ∧ w.program = some prog ∧
      prog.steps.map (fun s => (s.status, s.currentRunId)) =
        [(.skipped, none), (.succeeded, some "r1")] ∧ GateHeld w := by
  have hsteps : (system.run {} (skipFirst ++ [bindSecond])).map (fun w => w.program.map fun prog =>
      prog.steps.map fun s => (s.status, s.currentRunId)) =
        some (some [(.skipped, none), (.succeeded, some "r1")]) := by decide +kernel
  obtain ⟨w, hw, hprog⟩ := Option.map_eq_some_iff.mp hsteps
  obtain ⟨prog, hprog, hfields⟩ := Option.map_eq_some_iff.mp hprog
  have hbefore : (system.run {} skipFirst).map (nothingEarly solvedEnv "b") = some true := by
    decide +kernel
  obtain ⟨v, hv, hearly⟩ := Option.map_eq_some_iff.mp hbefore
  have hclean := System.along_snoc skipFirst_clean hv fun _ _ => bindSecond_clean hearly
  exact ⟨w, prog, hw, hprog, hfields, step_gate_held hclean hw⟩

/-- A payload whose second step claims to have succeeded, without a run. -/
def claimedSteps : ProgramFields where
  title := "migrate"
  steps := [buildStep "a" 0, { buildStep "b" 1 with status := .succeeded }]

/-- A created program has a succeeded step without a run above a planned one. -/
theorem claimed_steps_ungated :
    ∃ w, system.run {} [.create quietEnv "acme" "prog" claimedSteps] = some w ∧
      ¬ GateHeld w := by
  refine ⟨_, rfl, fun hheld => ?_⟩
  have hgated := hheld _ rfl
  obtain ⟨runId, hrun, -⟩ := hgated.bound { buildStep "b" 1 with status := .succeeded }
    (List.mem_cons_of_mem _ (List.mem_singleton_self _)) rfl
  cases hrun

end Recertia.Program
