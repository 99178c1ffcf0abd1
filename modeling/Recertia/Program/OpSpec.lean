import Recertia.Lib.Fallible
import Recertia.Program.Service

/-! What the operations of the service can do to the status of a program and of its steps. -/
namespace Recertia.Program

open Api (RunRecord)
open Fallible

@[simp] theorem mapSteps_status (prog : MigrationProgram) (f : MigrationStep → StepData) :
    (prog.mapSteps f).status = prog.status := rfl

@[simp] theorem mapSteps_disclaimer (prog : MigrationProgram) (f : MigrationStep → StepData) :
    (prog.mapSteps f).disclaimerAckedAt = prog.disclaimerAckedAt := rfl

theorem mapSteps_steps (prog : MigrationProgram) (f : MigrationStep → StepData) :
    (prog.mapSteps f).steps = prog.steps.map fun s => { s with toStepData := f s } := rfl

theorem mem_mapSteps {prog : MigrationProgram} {f : MigrationStep → StepData}
    {s' : MigrationStep} :
    s' ∈ (prog.mapSteps f).steps ↔ ∃ s ∈ prog.steps, s' = { s with toStepData := f s } := by
  rw [mapSteps_steps, List.mem_map]
  constructor
  · rintro ⟨s, hs, rfl⟩
    exact ⟨s, hs, rfl⟩
  · rintro ⟨s, hs, rfl⟩
    exact ⟨s, hs, rfl⟩

/-- A step is found by its id. -/
theorem findStep_spec {prog : MigrationProgram} {stepId : String} {step : MigrationStep}
    (h : findStep prog stepId = some step) : step ∈ prog.steps ∧ step.stepId = stepId := by
  refine ⟨List.mem_of_find?_eq_some h, ?_⟩
  have hid := List.find?_some h
  exact of_decide_eq_true hid

theorem step_unique {prog : MigrationProgram} {s t : MigrationStep} (hs : s ∈ prog.steps)
    (ht : t ∈ prog.steps) (hid : s.stepId = t.stepId) : s = t :=
  List.inj_on_of_nodup_map prog.linearOrdinalsUnique.2 hs ht hid

theorem findStep_of_mem {prog : MigrationProgram} {step : MigrationStep}
    (h : step ∈ prog.steps) : findStep prog step.stepId = some step := by
  cases hfind : findStep prog step.stepId with
  | none =>
    have hne := List.find?_eq_none.mp hfind step h
    simp at hne
  | some found =>
    obtain ⟨hmem, hid⟩ := findStep_spec hfind
    rw [step_unique hmem h hid]

theorem mem_replaceStep {prog : MigrationProgram} {stepId : String} {updated : StepData}
    {s' : MigrationStep} :
    s' ∈ (replaceStep prog stepId updated).steps ↔
      ∃ s ∈ prog.steps, s' = { s with
        toStepData := if s.stepId = stepId then updated else s.toStepData } := mem_mapSteps

theorem findStep_replaceStep {prog : MigrationProgram} {stepId : String} {step : MigrationStep}
    (h : findStep prog stepId = some step) (updated : StepData) :
    findStep (replaceStep prog stepId updated) stepId =
      some { step with toStepData := updated } := by
  obtain ⟨hmem, hid⟩ := findStep_spec h
  subst hid
  have hnew : ({ step with toStepData := updated } : MigrationStep) ∈
      (replaceStep prog step.stepId updated).steps :=
    mem_replaceStep.mpr ⟨step, hmem, by rw [if_pos rfl]⟩
  exact findStep_of_mem hnew

/-- Statuses of programs that go back and forth: active and blocked, and completed from them. -/
def Moves (p q : ProgramStatus) : Prop :=
  q = p ∨ ((p = .active ∨ p = .blocked) ∧ (q = .active ∨ q = .blocked ∨ q = .completed))

theorem Moves.trans {p q r : ProgramStatus} (hpq : Moves p q) (hqr : Moves q r) : Moves p r := by
  rcases hpq with rfl | ⟨hp, hq⟩
  · exact hqr
  · rcases hqr with rfl | ⟨-, hr⟩
    · exact Or.inr ⟨hp, hq⟩
    · exact Or.inr ⟨hp, hr⟩

/-- Succeeded steps stay so. -/
def StepsKeep (p q : MigrationProgram) : Prop :=
  ∀ s ∈ p.steps, s.status = .succeeded →
    ∃ s' ∈ q.steps, s'.stepId = s.stepId ∧ s'.status = .succeeded

theorem StepsKeep.refl (p : MigrationProgram) : StepsKeep p p := fun s hs hdone =>
  ⟨s, hs, rfl, hdone⟩

theorem StepsKeep.trans {p q r : MigrationProgram} (hpq : StepsKeep p q) (hqr : StepsKeep q r) :
    StepsKeep p r := by
  intro s hs hdone
  obtain ⟨s', hs', hid, hdone'⟩ := hpq s hs hdone
  obtain ⟨s'', hs'', hid', hdone''⟩ := hqr s' hs' hdone'
  exact ⟨s'', hs'', hid'.trans hid, hdone''⟩

theorem mapSteps_keep {prog : MigrationProgram} {f : MigrationStep → StepData}
    (h : ∀ s, s.status = .succeeded → (f s).status = .succeeded) :
    StepsKeep prog (prog.mapSteps f) := fun s hs hdone =>
  ⟨_, mem_mapSteps.mpr ⟨s, hs, rfl⟩, rfl, h s hdone⟩

theorem replaceStep_keep {prog : MigrationProgram} {stepId : String} {step : MigrationStep}
    {updated : StepData} (hfind : findStep prog stepId = some step)
    (h : step.status = .succeeded → updated.status = .succeeded) :
    StepsKeep prog (replaceStep prog stepId updated) := by
  intro s hs hdone
  refine ⟨_, mem_replaceStep.mpr ⟨s, hs, rfl⟩, rfl, ?_⟩
  dsimp only
  split
  · rename_i hid
    obtain ⟨hmem, hstepId⟩ := findStep_spec hfind
    have heq : s = step := step_unique hs hmem (hid.trans hstepId.symm)
    exact h (heq ▸ hdone)
  · exact hdone

/-- What every operation does but `accept`, `abandon`, `replace` and a failed seed. -/
structure Evolves (p q : MigrationProgram) : Prop where
  disclaimer : q.disclaimerAckedAt = p.disclaimerAckedAt
  status : Moves p.status q.status
  steps : StepsKeep p q

theorem Evolves.refl (p : MigrationProgram) : Evolves p p := ⟨rfl, Or.inl rfl, .refl p⟩

theorem Evolves.trans {p q r : MigrationProgram} (hpq : Evolves p q) (hqr : Evolves q r) :
    Evolves p r :=
  ⟨hqr.disclaimer.trans hpq.disclaimer, hpq.status.trans hqr.status, hpq.steps.trans hqr.steps⟩

theorem evolves_replaceStep {prog : MigrationProgram} {stepId : String} {step : MigrationStep}
    {updated : StepData} (hfind : findStep prog stepId = some step)
    (h : step.status = .succeeded → updated.status = .succeeded) :
    Evolves prog (replaceStep prog stepId updated) :=
  ⟨rfl, Or.inl rfl, replaceStep_keep hfind h⟩

theorem readyStep_status (prog : MigrationProgram) (s : MigrationStep) :
    (readyStep prog s).status = s.status ∨
      (s.status = .planned ∧ (readyStep prog s).status = .ready) := by
  unfold readyStep
  split
  · rename_i hready
    exact Or.inr ⟨hready.1, rfl⟩
  · exact Or.inl rfl

theorem refreshFlight_status (env : Env) (step : StepData) (h : step.status.inFlight = false) :
    refreshFlight env step = step := by
  have hnone : flightRecord env step = none := by simp [flightRecord, h]
  simp only [refreshFlight, hnone]

theorem readyStep_binding (prog : MigrationProgram) (s : MigrationStep) :
    (readyStep prog s).currentRunId = s.currentRunId ∧
      (readyStep prog s).acceptanceGate = s.acceptanceGate := by
  unfold readyStep
  split
  · exact ⟨rfl, rfl⟩
  · exact ⟨rfl, rfl⟩

/-- What a refresh does to the steps: first those in flight, then twice those that are ready. -/
theorem refresh_steps (env : Env) (prog : MigrationProgram) :
    ∃ settled, (refreshStepStatuses env prog).steps =
      (((prog.mapSteps fun s => refreshFlight env s.toStepData).mapSteps
        (readyStep prog)).mapSteps (readyStep settled)).steps := by
  let refreshed := prog.mapSteps fun s =>
    readyStep prog { s with toStepData := refreshFlight env s.toStepData }
  refine ⟨{ refreshed with status := settleStatus refreshed }, ?_⟩
  simp only [refreshStepStatuses, mapSteps_steps, List.map_map]
  rfl

theorem flightRecord_spec {env : Env} {step : StepData} {rec : RunRecord}
    (h : flightRecord env step = some rec) :
    step.status.inFlight = true ∧
      ∃ runId, step.currentRunId = some runId ∧ env.runs runId = some rec := by
  unfold flightRecord at h
  split at h
  · rename_i hflight
    obtain ⟨runId, hcurrent, hrun⟩ := Option.bind_eq_some_iff.mp h
    exact ⟨hflight, runId, (Option.filter_eq_some_iff.mp hcurrent).1, hrun⟩
  · cases h

theorem refreshFlight_binding (env : Env) (step : StepData) :
    (refreshFlight env step).currentRunId = step.currentRunId ∧
      (refreshFlight env step).acceptanceGate = step.acceptanceGate := by
  unfold refreshFlight
  split
  · exact ⟨rfl, rfl⟩
  · exact ⟨rfl, rfl⟩

theorem settleStatus_moves (prog : MigrationProgram) : Moves prog.status (settleStatus prog) := by
  unfold settleStatus
  split
  · rename_i hopen
    right
    refine ⟨hopen, ?_⟩
    split
    · exact Or.inr (Or.inl rfl)
    · split
      · exact Or.inr (Or.inr rfl)
      · exact Or.inl rfl
  · exact Or.inl rfl

/-- A refresh moves the statuses and keeps what has succeeded. -/
theorem evolves_refresh (env : Env) (prog : MigrationProgram) :
    Evolves prog (refreshStepStatuses env prog) := by
  have hready (p : MigrationProgram) (s : MigrationStep) (h : s.status = .succeeded) :
      (readyStep p s).status = .succeeded := by
    rcases readyStep_status p s with hsame | ⟨hplanned, -⟩
    · rw [hsame, h]
    · rw [h] at hplanned
      cases hplanned
  have hflight : StepsKeep prog (prog.mapSteps fun s =>
      readyStep prog { s with toStepData := refreshFlight env s.toStepData }) := by
    apply mapSteps_keep
    intro s h
    apply hready
    have hnot : s.status.inFlight = false := by rw [h]; rfl
    dsimp only
    rw [refreshFlight_status env s.toStepData hnot]
    exact h
  exact ⟨rfl, settleStatus_moves _, hflight.trans (mapSteps_keep (hready _))⟩

/-- What a bind has checked. -/
structure Bindable (env : Env) (prog : MigrationProgram) (step : MigrationStep) (runId : String)
    (rec : RunRecord) : Prop where
  active : prog.status = .active
  runnable : step.status = .failed ∨ step.status = .ready ∨ step.status = .planned
  previous : ∀ prev, previousStep prog step = some prev → prev.status.done = true
  run : env.runs runId = some rec

theorem conflictUnless_eq_ok {allowed : Bool} {message : String} {u : Unit} :
    conflictUnless allowed message = .ok u ↔ allowed = true := by
  cases allowed <;> simp [conflictUnless]

theorem orRaise_eq_ok {α : Type} {error : ServiceError} {o : Option α} {a : α} :
    orRaise error o = .ok a ↔ o = some a := by
  cases o <;> simp [orRaise]

theorem checkBind_spec {env : Env} {prog : MigrationProgram} {step : MigrationStep}
    {previewedHash : Option String} {ph runId : String} {rec : RunRecord}
    (h : checkBind env prog step previewedHash ph runId = .ok rec) :
    Bindable env prog step runId rec := by
  unfold checkBind at h
  obtain ⟨_, hactive, h⟩ := bind_eq_ok.mp h
  obtain ⟨_, hrunnable, h⟩ := bind_eq_ok.mp h
  obtain ⟨_, hprevious, h⟩ := bind_eq_ok.mp h
  obtain ⟨found, hrun, h⟩ := bind_eq_ok.mp h
  rw [conflictUnless_eq_ok] at hactive hrunnable hprevious
  rw [orRaise_eq_ok] at hrun
  have hfound : found = rec := by
    dsimp only at h
    split at h
    · cases h
    · obtain ⟨_, -, h⟩ := bind_eq_ok.mp h
      obtain ⟨_, -, h⟩ := bind_eq_ok.mp h
      obtain ⟨_, -, h⟩ := bind_eq_ok.mp h
      exact pure_eq_ok.mp h
  subst hfound
  refine ⟨of_decide_eq_true hactive, ?_, fun prev hprev => ?_, hrun⟩
  · simp only [stepIsReady, Bool.or_eq_true, Bool.and_eq_true, decide_eq_true_eq] at hrunnable
    tauto
  · rw [hprev] at hprevious
    exact hprevious

/-- A step with the hash that this call has computed. -/
def hashed (step : MigrationStep) (ph : String) : MigrationStep :=
  { step with criteriaPreviewHash := some ph }

/-- Everything that `_apply_run_step` can return. -/
inductive AppliedKind (env later : Env) (body : StepRunBody) (prog : MigrationProgram)
    (step : MigrationStep) : Applied → Prop
  | planned (ph : String) : AppliedKind env later body prog step
      (.planned (replaceStep prog step.stepId (hashed step ph).toStepData))
  | idempotent (runId : String) (asked : body.bindRunId = some runId)
      (current : step.currentRunId = some runId) :
      AppliedKind env later body prog step (.idempotent runId)
  | bound (ph runId : String) (rec : RunRecord) (asked : body.bindRunId = some runId)
      (other : step.currentRunId ≠ some runId)
      (bindable : Bindable env (replaceStep prog step.stepId (hashed step ph).toStepData)
        (hashed step ph) runId rec) :
      AppliedKind env later body prog step
        (.bound (bindRun later (replaceStep prog step.stepId (hashed step ph).toStepData)
          (hashed step ph) rec runId) runId)

theorem applyRunStep_cases {env later : Env} {body : StepRunBody} {prog : MigrationProgram}
    {step : MigrationStep} {applied : Applied}
    (h : applyRunStep env later body prog step = .ok applied) :
    AppliedKind env later body prog step applied := by
  unfold applyRunStep at h
  obtain ⟨ph, -, h⟩ := bind_eq_ok.mp h
  dsimp only at h
  split at h
  · rename_i runId _ hasked
    obtain ⟨rec, hcheck, h⟩ := bind_eq_ok.mp h
    split at h
    · rename_i hcurrent
      rw [← pure_eq_ok.mp h]
      exact .idempotent runId hasked hcurrent
    · rename_i hother
      obtain ⟨_, -, h⟩ := bind_eq_ok.mp h
      rw [← pure_eq_ok.mp h]
      exact .bound ph runId rec hasked hother (checkBind_spec hcheck)
  · rw [← pure_eq_ok.mp h]
    exact .planned ph

/-- The program with the run bound, before its own status is set. -/
def withRun (prog : MigrationProgram) (step : MigrationStep) (rec : RunRecord) (runId : String) :
    MigrationProgram :=
  replaceStep prog step.stepId { step.toStepData with
    runIds := if step.runIds.contains runId then step.runIds else step.runIds ++ [runId]
    currentRunId := some runId
    status := bindStatus rec step.acceptanceGate.terminalIn }

/-- A bind is followed by a block, a refresh, or nothing. -/
theorem bindRun_cases (env : Env) (prog : MigrationProgram) (step : MigrationStep)
    (rec : RunRecord) (runId : String) :
    (bindStatus rec step.acceptanceGate.terminalIn = .failed ∧
      bindRun env prog step rec runId = { withRun prog step rec runId with status := .blocked }) ∨
    (bindStatus rec step.acceptanceGate.terminalIn = .succeeded ∧
      bindRun env prog step rec runId = refreshStepStatuses env
        { withRun prog step rec runId with
          status := if allDone (withRun prog step rec runId) then .completed else .active }) ∨
    ((bindStatus rec step.acceptanceGate.terminalIn).inFlight = true ∧
      bindRun env prog step rec runId = withRun prog step rec runId) := by
  have hcases : bindStatus rec step.acceptanceGate.terminalIn = .failed ∨
      bindStatus rec step.acceptanceGate.terminalIn = .succeeded ∨
      (bindStatus rec step.acceptanceGate.terminalIn = .running ∨
        bindStatus rec step.acceptanceGate.terminalIn = .queued) := by
    unfold bindStatus
    dsimp only
    split
    · exact Or.inr (Or.inl rfl)
    · split
      · split
        · exact Or.inr (Or.inr (Or.inl rfl))
        · exact Or.inr (Or.inr (Or.inr rfl))
      · exact Or.inl rfl
  rcases hcases with hstatus | hstatus | hstatus | hstatus
  · exact Or.inl ⟨hstatus, by simp only [bindRun, withRun, hstatus]⟩
  · exact Or.inr (Or.inl ⟨hstatus, by simp only [bindRun, withRun, hstatus]⟩)
  · exact Or.inr (Or.inr ⟨by rw [hstatus]; rfl, by simp only [bindRun, withRun, hstatus]⟩)
  · exact Or.inr (Or.inr ⟨by rw [hstatus]; rfl, by simp only [bindRun, withRun, hstatus]⟩)

theorem evolves_status {p : MigrationProgram} {status : ProgramStatus}
    (h : Moves p.status status) : Evolves p { p with status } := ⟨rfl, h, .refl p⟩

theorem evolves_bindRun (later : Env) {env : Env} {prog : MigrationProgram} {step : MigrationStep}
    {rec : RunRecord} {runId : String} (hfind : findStep prog step.stepId = some step)
    (h : Bindable env prog step runId rec) : Evolves prog (bindRun later prog step rec runId) := by
  have hnot : step.status ≠ .succeeded := by
    rcases h.runnable with hs | hs | hs <;> rw [hs] <;> decide
  have hwith : Evolves prog (withRun prog step rec runId) :=
    evolves_replaceStep hfind fun hdone => absurd hdone hnot
  have hactive : (withRun prog step rec runId).status = .active := h.active
  rcases bindRun_cases later prog step rec runId with ⟨-, hnext⟩ | ⟨-, hnext⟩ | ⟨-, hnext⟩
  · rw [hnext]
    refine hwith.trans (evolves_status ?_)
    rw [hactive]
    exact Or.inr ⟨Or.inl rfl, Or.inr (Or.inl rfl)⟩
  · rw [hnext]
    refine (hwith.trans (evolves_status ?_)).trans (evolves_refresh later _)
    rw [hactive]
    split
    · exact Or.inr ⟨Or.inl rfl, Or.inr (Or.inr rfl)⟩
    · exact Or.inl rfl
  · rw [hnext]
    exact hwith

theorem withStep_save {prog q : MigrationProgram} {stepId : String}
    {f : MigrationStep → Computed} (h : (withStep prog stepId f).save = some q) :
    ∃ step, findStep prog stepId = some step ∧ (f step).save = some q := by
  unfold withStep at h
  split at h
  · cases h
  · rename_i step hfind
    exact ⟨step, hfind, h⟩

/-- Whether git refuses to seed a workdir. -/
def seedRefused (prog : MigrationProgram) (checkout : Except String String) : Bool :=
  prog.handoff ≠ .gitTip || prog.repoBinding = none || !checkout.isOk

/-- Another text of a step: its status, its run and its gate are as before. -/
structure Annotates (step : MigrationStep) (updated : StepData) : Prop where
  status : updated.status = step.status
  run : updated.currentRunId = step.currentRunId
  gate : updated.acceptanceGate = step.acceptanceGate

/-- Everything that an operation saves. -/
inductive Saved (env : Env) (op : Operation) (prog q : MigrationProgram) : Prop
  | refreshed (op : op = .get) (next : q = refreshStepStatuses env prog)
  | replaced (body : ProgramFields) (ifMatch : Option ℕ) (op : op = .replace body ifMatch)
      (save : (replace body ifMatch prog).save = some q)
      (draft : prog.status = .draft) (status : q.status = .draft) (steps : q.steps = body.steps)
      (disclaimer : q.disclaimerAckedAt = prog.disclaimerAckedAt)
  | accepted (op : op = .accept true) (draft : prog.status = .draft)
      (next : q = refreshStepStatuses env
        { prog with status := .active, disclaimerAckedAt := some env.now })
  | abandoned (op : op = .abandon) (next : q = { prog with status := .abandoned })
  | annotated (stepId : String) (step : MigrationStep) (updated : StepData)
      (find : findStep prog stepId = some step) (same : Annotates step updated)
      (next : q = replaceStep prog stepId updated)
  | rooted (binding : RepoBinding)
      (next : q = { prog with repoBinding := some binding, handoff := .gitTip })
  | planned (stepId : String) (body : StepRunBody) (op : op = .runStep stepId body)
      (step : MigrationStep) (ph : String)
      (find : findStep (refreshStepStatuses env prog) stepId = some step)
      (next : q = replaceStep (refreshStepStatuses env prog) step.stepId
        (hashed step ph).toStepData)
  | bound (stepId : String) (body : StepRunBody) (op : op = .runStep stepId body)
      (step : MigrationStep) (runId : String)
      (load : loadStep env prog stepId = some (refreshStepStatuses env prog, step))
      (apply : applyRunStep env env body (refreshStepStatuses env prog) step =
        .ok (.bound q runId))
  | skipped (stepId note : String) (op : op = .skipStep stepId note) (step : MigrationStep)
      (isOpen : prog.status = .active ∨ prog.status = .blocked)
      (find : findStep prog stepId = some step) (inFlight : step.status.inFlight = false)
      (unsettled : step.status ≠ .succeeded) (updated : StepData)
      (status : updated.status = .skipped) (run : updated.currentRunId = step.currentRunId)
      (next : q = refreshStepStatuses env
        { replaceStep prog stepId updated with
          status := if allDone (replaceStep prog stepId updated) then .completed else .active })
  | seedFailed (stepId : String) (checkout : Except String String)
      (op : op = .seedWorkdir stepId checkout) (step : MigrationStep)
      (find : findStep prog stepId = some step)
      (refused : seedRefused prog checkout = true) (next : q = seedFailure prog step)

theorem get_saved {env : Env} {prog q : MigrationProgram} (h : (get env prog).save = some q) :
    Saved env .get prog q := by
  unfold get at h
  dsimp only at h
  split at h
  · cases h
  · exact .refreshed rfl (Option.some.inj h).symm

theorem replace_saved {env : Env} {body : ProgramFields} {ifMatch : Option ℕ}
    {prog q : MigrationProgram} (h : (replace body ifMatch prog).save = some q) :
    Saved env (.replace body ifMatch) prog q := by
  have hsave := h
  unfold replace at h
  split at h
  · cases h
  · split at h
    · cases h
    · split at h
      · cases h
      · rename_i hdraft
        rw [not_not] at hdraft
        split at h
        · cases h
        · split at h
          · cases h
            exact .replaced _ _ rfl hsave hdraft hdraft rfl rfl
          · cases h

theorem accept_saved {env : Env} {ack : Bool} {prog q : MigrationProgram}
    (h : (accept env ack prog).save = some q) : Saved env (.accept ack) prog q := by
  unfold accept at h
  split at h
  · cases h
  · rename_i hack
    split at h
    · cases h
    · split at h
      · cases h
      · rename_i hdraft
        rw [not_not] at hdraft
        iterate 4
          split at h
          · cases h
        cases ack with
        | false => simp at hack
        | true => exact .accepted rfl hdraft (Option.some.inj h).symm

theorem patchStep_saved {env : Env} {stepId : String} {body : StepPatch}
    {prog q : MigrationProgram} (h : (patchStep stepId body prog).save = some q) :
    Saved env (.patchStep stepId body) prog q := by
  obtain ⟨step, hfind, h⟩ := withStep_save h
  dsimp only at h
  split at h
  · cases h
  · refine .annotated stepId step _ hfind ?_ (Option.some.inj h).symm
    exact ⟨rfl, rfl, rfl⟩

theorem previewStep_saved {env : Env} {stepId : String} {prog q : MigrationProgram}
    (h : (previewStep env stepId prog).save = some q) :
    Saved env (.previewStep stepId) prog q := by
  obtain ⟨step, hfind, h⟩ := withStep_save h
  dsimp only at h
  split at h
  · cases h
  · split at h
    · cases h
    · split at h
      · cases h
      · refine .annotated stepId step _ hfind ?_ (Option.some.inj h).symm
        exact ⟨rfl, rfl, rfl⟩

theorem recordTip_saved {env : Env} {stepId : String} {useBindingRoot : Bool}
    {sha : Except String String} {prog q : MigrationProgram}
    (h : (recordTip stepId useBindingRoot sha prog).save = some q) :
    Saved env (.recordTip stepId useBindingRoot sha) prog q := by
  obtain ⟨step, hfind, h⟩ := withStep_save h
  dsimp only at h
  split at h
  · cases h
  · split at h
    · cases h
    · cases sha with
      | error message => cases h
      | ok sha =>
        refine .annotated stepId step _ hfind ?_ (Option.some.inj h).symm
        exact ⟨rfl, rfl, rfl⟩

theorem bindRepo_saved {env : Env} {binding : RepoBinding} {root : Except String String}
    {prog q : MigrationProgram} (h : (bindRepo binding root prog).save = some q) :
    Saved env (.bindRepo binding root) prog q := by
  cases root with
  | error message => cases h
  | ok path => exact .rooted binding (Option.some.inj h).symm

theorem runStep_saved {env : Env} {stepId : String} {body : StepRunBody}
    {prog q : MigrationProgram} (h : (runStep env env stepId body prog).save = some q) :
    Saved env (.runStep stepId body) prog q := by
  unfold runStep at h
  split at h
  · cases h
  · rename_i refreshed step hload
    have hloaded := hload
    obtain ⟨found, hfind, hpair⟩ := Option.map_eq_some_iff.mp hloaded
    cases hpair
    cases happly : applyRunStep env env body (refreshStepStatuses env prog) step with
    | error error =>
      rw [happly] at h
      cases h
    | ok applied =>
      rw [happly] at h
      cases applyRunStep_cases happly with
      | planned ph => exact .planned stepId body rfl step ph hfind (Option.some.inj h).symm
      | idempotent runId asked current => cases h
      | bound ph runId rec asked other bindable =>
        cases h
        exact .bound stepId body rfl step runId hload happly

theorem skipStep_saved {env : Env} {stepId note : String} {prog q : MigrationProgram}
    (h : (skipStep env stepId note prog).save = some q) :
    Saved env (.skipStep stepId note) prog q := by
  unfold skipStep at h
  split at h
  · cases h
  · split at h
    · cases h
    · rename_i hopen
      obtain ⟨step, hfind, h⟩ := withStep_save h
      dsimp only at h
      split at h
      · cases h
      · rename_i hstatus
        rw [Bool.not_eq_true, Bool.or_eq_false_iff, decide_eq_false_iff_not] at hstatus
        have hstands : prog.status = .active ∨ prog.status = .blocked := by
          by_contra hneither
          exact hopen (not_or.mp hneither)
        refine .skipped stepId note rfl step hstands hfind hstatus.1 hstatus.2 _ rfl ?_
          (Option.some.inj h).symm
        rfl

theorem seedWorkdir_saved {env : Env} {stepId : String} {checkout : Except String String}
    {prog q : MigrationProgram} (h : (seedWorkdir stepId checkout prog).save = some q) :
    Saved env (.seedWorkdir stepId checkout) prog q := by
  obtain ⟨step, hfind, h⟩ := withStep_save h
  refine .seedFailed stepId checkout rfl step hfind ?_ ?_
  · dsimp only at h
    split at h
    · rename_i hhandoff
      simp [seedRefused, hhandoff]
    · split at h
      · rename_i hbinding
        simp [seedRefused, hbinding]
      · cases checkout with
        | error message => simp [seedRefused, Except.isOk, Except.toBool]
        | ok sha => cases h
  · dsimp only at h
    split at h
    · exact (Option.some.inj h).symm
    · split at h
      · exact (Option.some.inj h).symm
      · cases checkout with
        | error message => exact (Option.some.inj h).symm
        | ok sha => cases h

theorem compute_saved {env : Env} {op : Operation} {prog q : MigrationProgram}
    (h : (op.compute env prog).save = some q) :
    env.permits op.action = true ∧ Saved env op prog q := by
  unfold Operation.compute at h
  split at h
  · cases h
  · rename_i hpermits
    refine ⟨by simpa using hpermits, ?_⟩
    cases op with
    | get => exact get_saved h
    | replace body ifMatch => exact replace_saved h
    | accept ack => exact accept_saved h
    | abandon => exact .abandoned rfl (Option.some.inj h).symm
    | patchStep stepId body => exact patchStep_saved h
    | previewStep stepId => exact previewStep_saved h
    | runStep stepId body => exact runStep_saved h
    | skipStep stepId note => exact skipStep_saved h
    | bindRepo binding root => exact bindRepo_saved h
    | recordTip stepId useBindingRoot sha => exact recordTip_saved h
    | seedWorkdir stepId checkout => exact seedWorkdir_saved h

/-- A bind evolves the program that the call has loaded. -/
theorem evolves_bound {env later : Env} {body : StepRunBody} {prog q : MigrationProgram}
    {step : MigrationStep} {runId : String} (hfind : findStep prog step.stepId = some step)
    (h : applyRunStep env later body prog step = .ok (.bound q runId)) : Evolves prog q := by
  cases applyRunStep_cases h with
  | bound ph runId rec asked other bindable =>
    have hhash : Evolves prog (replaceStep prog step.stepId (hashed step ph).toStepData) :=
      evolves_replaceStep hfind id
    exact hhash.trans (evolves_bindRun later (findStep_replaceStep hfind _) bindable)

/-- What an operation saves, as far as the statuses go. -/
inductive SaveKind (env : Env) (op : Operation) (prog q : MigrationProgram) : Prop
  | evolved (evolves : Evolves prog q)
  | replaced (body : ProgramFields) (ifMatch : Option ℕ) (op : op = .replace body ifMatch)
      (draft : prog.status = .draft) (status : q.status = .draft) (steps : q.steps = body.steps)
      (disclaimer : q.disclaimerAckedAt = prog.disclaimerAckedAt)
  | accepted (op : op = .accept true) (draft : prog.status = .draft)
      (next : q = refreshStepStatuses env
        { prog with status := .active, disclaimerAckedAt := some env.now })
  | abandoned (op : op = .abandon) (next : q = { prog with status := .abandoned })
  | seedFailed (stepId : String) (checkout : Except String String)
      (op : op = .seedWorkdir stepId checkout) (permitted : env.permits "programs.write" = true)
      (step : MigrationStep) (find : findStep prog stepId = some step)
      (refused : seedRefused prog checkout = true) (next : q = seedFailure prog step)

theorem compute_cases {env : Env} {op : Operation} {prog q : MigrationProgram}
    (h : (op.compute env prog).save = some q) : SaveKind env op prog q := by
  obtain ⟨hpermitted, hsaved⟩ := compute_saved h
  have hrefresh := evolves_refresh env prog
  cases hsaved with
  | refreshed _ hnext =>
    rw [hnext]
    exact .evolved hrefresh
  | replaced body ifMatch hop _ hdraft hstatus hsteps hdisclaimer =>
    exact .replaced body ifMatch hop hdraft hstatus hsteps hdisclaimer
  | accepted hop hdraft hnext => exact .accepted hop hdraft hnext
  | abandoned hop hnext => exact .abandoned hop hnext
  | annotated stepId step updated hfind hsame hnext =>
    rw [hnext]
    exact .evolved (evolves_replaceStep hfind fun hdone => hsame.status.trans hdone)
  | rooted binding hnext =>
    rw [hnext]
    exact .evolved ⟨rfl, Or.inl rfl, .refl prog⟩
  | planned stepId body _ step ph hfind hnext =>
    obtain ⟨-, hid⟩ := findStep_spec hfind
    subst hid
    have hhash : Evolves (refreshStepStatuses env prog)
        (replaceStep (refreshStepStatuses env prog) step.stepId (hashed step ph).toStepData) :=
      evolves_replaceStep hfind id
    rw [hnext]
    exact .evolved (hrefresh.trans hhash)
  | bound stepId body _ step runId hload happly =>
    obtain ⟨found, hfind, hpair⟩ := Option.map_eq_some_iff.mp hload
    cases hpair
    obtain ⟨-, hid⟩ := findStep_spec hfind
    exact .evolved (hrefresh.trans (evolves_bound (hid ▸ hfind) happly))
  | skipped stepId note _ step hopen hfind _ hnot updated _ _ hnext =>
    rw [hnext]
    refine .evolved (((evolves_replaceStep hfind fun hdone => absurd hdone hnot).trans
      (evolves_status ?_)).trans (evolves_refresh env _))
    right
    refine ⟨hopen, ?_⟩
    split
    · exact Or.inr (Or.inr rfl)
    · exact Or.inl rfl
  | seedFailed stepId checkout hop step hfind hrefused hnext =>
    subst hop
    exact .seedFailed stepId checkout rfl hpermitted step hfind hrefused hnext

end Recertia.Program
