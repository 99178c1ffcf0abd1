import Recertia.Program.Clients

/-! What no operation undoes once a program is accepted: a step that has left its first statuses
keeps its run, and is not bound again. -/
namespace Recertia.Program.Clients

open Transition

/-- A run can be bound to a step in these statuses only: a failed step blocks its program. -/
def isFresh : StepStatus → Bool
  | .planned => true
  | .ready => true
  | _ => false

/-- A step has its run for good: its program is accepted, and the step has left its first
statuses. -/
def Taken (prog : MigrationProgram) (stepId runId : String) : Prop :=
  prog.status ≠ .draft ∧ ∃ step, findStep prog stepId = some step ∧
    step.currentRunId = some runId ∧ isFresh step.status = false

/-- No step becomes fresh again or changes its run then, and no program becomes a draft again. -/
structure Settles (p q : MigrationProgram) : Prop where
  draft : p.status ≠ .draft → q.status ≠ .draft
  steps : ∀ s ∈ p.steps, isFresh s.status = false → ∃ s' ∈ q.steps,
    s'.stepId = s.stepId ∧ s'.currentRunId = s.currentRunId ∧ isFresh s'.status = false

theorem Settles.trans {p q r : MigrationProgram} (hpq : Settles p q) (hqr : Settles q r) :
    Settles p r := by
  refine ⟨fun h => hqr.draft (hpq.draft h), fun s hs hfresh => ?_⟩
  obtain ⟨s', hs', hid, hrun, hfresh'⟩ := hpq.steps s hs hfresh
  obtain ⟨s'', hs'', hid', hrun', hfresh''⟩ := hqr.steps s' hs' hfresh'
  exact ⟨s'', hs'', hid'.trans hid, hrun'.trans hrun, hfresh''⟩

theorem settles_same {p q : MigrationProgram} (hstatus : p.status ≠ .draft → q.status ≠ .draft)
    (hsteps : q.steps = p.steps) : Settles p q :=
  ⟨hstatus, fun s hs hfresh => ⟨s, hsteps ▸ hs, rfl, rfl, hfresh⟩⟩

theorem Settles.withStatus {p q : MigrationProgram} (h : Settles p q) {status : ProgramStatus}
    (hstatus : status ≠ .draft) : Settles p { q with status } := ⟨fun _ => hstatus, h.steps⟩

theorem settles_mapSteps {prog : MigrationProgram} {f : MigrationStep → StepData}
    (h : ∀ s ∈ prog.steps, isFresh s.status = false →
      (f s).currentRunId = s.currentRunId ∧ isFresh (f s).status = false) :
    Settles prog (prog.mapSteps f) := by
  refine ⟨id, fun s hs hfresh => ?_⟩
  obtain ⟨hrun, hfresh'⟩ := h s hs hfresh
  exact ⟨_, mem_mapSteps.mpr ⟨s, hs, rfl⟩, rfl, hrun, hfresh'⟩

theorem settles_replaceStep {prog : MigrationProgram} {stepId : String} {step : MigrationStep}
    {updated : StepData} (hfind : findStep prog stepId = some step)
    (h : isFresh step.status = false →
      updated.currentRunId = step.currentRunId ∧ isFresh updated.status = false) :
    Settles prog (replaceStep prog stepId updated) := by
  obtain ⟨hmem, hid⟩ := findStep_spec hfind
  apply settles_mapSteps
  intro s hs hfresh
  split
  · rename_i hsid
    have heq : s = step := step_unique hs hmem (hsid.trans hid.symm)
    rw [heq] at hfresh ⊢
    exact h hfresh
  · exact ⟨rfl, hfresh⟩

theorem Taken.settles {p q : MigrationProgram} {stepId runId : String}
    (h : Taken p stepId runId) (hsettles : Settles p q) : Taken q stepId runId := by
  obtain ⟨hdraft, step, hfind, hrun, hfresh⟩ := h
  obtain ⟨hmem, hid⟩ := findStep_spec hfind
  obtain ⟨s', hs', hid', hrun', hfresh'⟩ := hsettles.steps step hmem hfresh
  refine ⟨hsettles.draft hdraft, s', ?_, hrun'.trans hrun, hfresh'⟩
  rw [← hid, ← hid']
  exact findStep_of_mem hs'

theorem refreshedStatus_fresh {rec : Api.RunRecord} {step : StepData}
    (h : isFresh step.status = false) : isFresh (refreshedStatus rec step) = false := by
  unfold refreshedStatus
  dsimp only
  split
  · rfl
  · split
    · rfl
    · split
      · rfl
      · split
        · rfl
        · exact h

theorem settles_ready (prog other : MigrationProgram) :
    Settles prog (prog.mapSteps (readyStep other)) := by
  apply settles_mapSteps
  intro s _ hfresh
  refine ⟨(readyStep_binding other s).1, ?_⟩
  rcases readyStep_status other s with hsame | ⟨hplanned, -⟩
  · rw [hsame]
    exact hfresh
  · rw [hplanned] at hfresh
    cases hfresh

theorem settles_refresh (env : Env) (prog : MigrationProgram) :
    Settles prog (refreshStepStatuses env prog) := by
  obtain ⟨settled, hsteps⟩ := refresh_steps env prog
  have hflight : Settles prog (prog.mapSteps fun s => refreshFlight env s.toStepData) := by
    apply settles_mapSteps
    intro s _ hfresh
    refine ⟨(refreshFlight_binding env s.toStepData).1, ?_⟩
    unfold refreshFlight
    split
    · exact hfresh
    · exact refreshedStatus_fresh hfresh
  have hready := (hflight.trans (settles_ready _ prog)).trans (settles_ready _ settled)
  refine hready.trans (settles_same (fun hdraft => ?_) hsteps)
  rcases (evolves_refresh env prog).status with hsame | ⟨-, hopen⟩
  · rw [hsame]
    exact hdraft
  · rcases hopen with hopen | hopen | hopen <;> rw [hopen] <;> decide

/-- A failed step blocks its program, as a refresh leaves it. -/
theorem not_failed_of_active {env : Env} {prog : MigrationProgram}
    (h : (refreshStepStatuses env prog).status = .active) {step : MigrationStep}
    (hstep : step ∈ (refreshStepStatuses env prog).steps) : step.status ≠ .failed := by
  obtain ⟨s, hs, rfl⟩ := mem_mapSteps.mp hstep
  dsimp only
  have hbefore : s.status ≠ .failed := by
    intro hfailed
    have hsettle := h
    simp only [refreshStepStatuses, mapSteps_status, settleStatus] at hsettle
    split at hsettle
    · rw [if_pos] at hsettle
      · cases hsettle
      · exact List.any_eq_true.mpr ⟨s, hs, decide_eq_true hfailed⟩
    · rename_i hopen
      exact hopen (Or.inl hsettle)
  intro hfailed
  rcases readyStep_status _ s with hsame | ⟨-, hready⟩
  · rw [hsame] at hfailed
    exact hbefore hfailed
  · rw [hready] at hfailed
    cases hfailed

/-- A call that binds a run has found its step fresh. -/
theorem fresh_of_bound {load env later : Env} {body : StepRunBody} {prog q : MigrationProgram}
    {step : MigrationStep} {runId : String} (hmem : step ∈ (refreshStepStatuses load prog).steps)
    (h : applyRunStep env later body (refreshStepStatuses load prog) step =
      .ok (.bound q runId)) : isFresh step.status = true := by
  cases applyRunStep_cases h with
  | bound ph runId rec asked other bindable =>
    have hnot := not_failed_of_active bindable.active hmem
    have hrunnable : step.status = .failed ∨ step.status = .ready ∨ step.status = .planned :=
      bindable.runnable
    rcases hrunnable with hs | hs | hs
    · exact absurd hs hnot
    · rw [hs]
      rfl
    · rw [hs]
      rfl

theorem bindStatus_fresh (rec : Api.RunRecord) (gate : List String) :
    isFresh (bindStatus rec gate) = false := by
  unfold bindStatus
  dsimp only
  split
  · rfl
  · split
    · split <;> rfl
    · rfl

/-- A bind leaves its step taken. -/
theorem taken_bindRun (later : Env) {env : Env} {prog : MigrationProgram} {step : MigrationStep}
    {rec : Api.RunRecord} {runId : String} (hfind : findStep prog step.stepId = some step)
    (h : Bindable env prog step runId rec) :
    Taken (bindRun later prog step rec runId) step.stepId runId := by
  have hstep : ∃ s, findStep (withRun prog step rec runId) step.stepId = some s ∧
      s.currentRunId = some runId ∧ isFresh s.status = false :=
    ⟨_, findStep_replaceStep hfind _, rfl, bindStatus_fresh rec _⟩
  have htaken (status : ProgramStatus) (hstatus : status ≠ .draft) :
      Taken { withRun prog step rec runId with status } step.stepId runId := ⟨hstatus, hstep⟩
  have hactive : (withRun prog step rec runId).status = .active := h.active
  rcases bindRun_cases later prog step rec runId with ⟨-, hnext⟩ | ⟨-, hnext⟩ | ⟨-, hnext⟩
  · rw [hnext]
    exact htaken _ (by decide)
  · rw [hnext]
    refine (htaken _ ?_).settles (settles_refresh later _)
    split <;> decide
  · rw [hnext]
    refine ⟨?_, hstep⟩
    rw [hactive]
    decide

theorem settles_bindRun (later : Env) {prog : MigrationProgram} {step : MigrationStep}
    {rec : Api.RunRecord} {runId : String} (hfind : findStep prog step.stepId = some step)
    (hfresh : isFresh step.status = true) :
    Settles prog (bindRun later prog step rec runId) := by
  have hwith : Settles prog (withRun prog step rec runId) := by
    apply settles_replaceStep hfind
    intro hnot
    rw [hfresh] at hnot
    cases hnot
  rcases bindRun_cases later prog step rec runId with ⟨-, hnext⟩ | ⟨-, hnext⟩ | ⟨-, hnext⟩
  · rw [hnext]
    exact hwith.withStatus (by decide)
  · rw [hnext]
    refine (hwith.withStatus ?_).trans (settles_refresh later _)
    split <;> decide
  · rw [hnext]
    exact hwith

/-- A call that binds a run keeps what has settled, and its own step is taken then. -/
theorem bound_spec {load env later : Env} {body : StepRunBody} {prog q : MigrationProgram}
    {step : MigrationStep} {stepId runId : String}
    (hload : loadStep load prog stepId = some (refreshStepStatuses load prog, step))
    (h : applyRunStep env later body (refreshStepStatuses load prog) step =
      .ok (.bound q runId)) :
    isFresh step.status = true ∧ Settles prog q ∧ Taken q stepId runId := by
  obtain ⟨found, hfind, hpair⟩ := Option.map_eq_some_iff.mp hload
  cases hpair
  obtain ⟨hmem, hid⟩ := findStep_spec hfind
  subst hid
  have hfresh := fresh_of_bound hmem h
  cases applyRunStep_cases h with
  | bound ph runId rec asked other bindable =>
    have hhashed : Settles (refreshStepStatuses load prog)
        (replaceStep (refreshStepStatuses load prog) step.stepId (hashed step ph).toStepData) :=
      settles_replaceStep hfind fun hnot => ⟨rfl, hnot⟩
    have hbefore := (settles_refresh load prog).trans hhashed
    have hfind' := findStep_replaceStep hfind (hashed step ph).toStepData
    exact ⟨hfresh, hbefore.trans (settles_bindRun later hfind' hfresh),
      taken_bindRun later hfind' bindable⟩

/-- Whatever is saved on a program that is no draft keeps what has settled. -/
theorem settles_saved {env : Env} {op : Operation} {prog q : MigrationProgram}
    (hdraft : prog.status ≠ .draft) (h : Saved env op prog q) : Settles prog q := by
  have hrefresh := settles_refresh env prog
  cases h with
  | refreshed _ hnext =>
    rw [hnext]
    exact hrefresh
  | replaced body ifMatch _ _ hwas => exact absurd hwas hdraft
  | accepted _ hwas => exact absurd hwas hdraft
  | abandoned _ hnext =>
    have hsame : Settles prog prog := settles_same id rfl
    rw [hnext]
    exact hsame.withStatus (by decide)
  | annotated stepId step updated hfind hsame hnext =>
    rw [hnext]
    apply settles_replaceStep hfind
    intro hfresh
    rw [hsame.status]
    exact ⟨hsame.run, hfresh⟩
  | rooted binding hnext =>
    rw [hnext]
    exact settles_same id rfl
  | planned stepId body _ step ph hfind hnext =>
    obtain ⟨-, hid⟩ := findStep_spec hfind
    subst hid
    have hhashed : Settles (refreshStepStatuses env prog)
        (replaceStep (refreshStepStatuses env prog) step.stepId (hashed step ph).toStepData) :=
      settles_replaceStep hfind fun hnot => ⟨rfl, hnot⟩
    rw [hnext]
    exact hrefresh.trans hhashed
  | bound stepId body _ step runId hload happly => exact (bound_spec hload happly).2.1
  | skipped stepId note _ step _ hfind _ _ updated hstatus hrun hnext =>
    have hskip : Settles prog (replaceStep prog stepId updated) := by
      apply settles_replaceStep hfind
      intro _
      rw [hstatus]
      exact ⟨hrun, rfl⟩
    rw [hnext]
    refine (hskip.withStatus ?_).trans (settles_refresh env _)
    split <;> decide
  | seedFailed stepId checkout _ step hfind _ hnext =>
    obtain ⟨-, hid⟩ := findStep_spec hfind
    subst hid
    have hfail : Settles prog (replaceStep prog step.stepId
        { step.toStepData with status := .failed }) :=
      settles_replaceStep hfind fun _ => ⟨rfl, rfl⟩
    rw [hnext]
    exact hfail.withStatus (by decide)

def Applied.save : Applied → Option MigrationProgram
  | .planned next => some next
  | .idempotent _ => none
  | .bound next _ => some next

/-- The next program is computed from this one, by an operation or a bind. -/
inductive Derived (prog next : MigrationProgram) : Prop
  | operated (env : Env) (op : Operation) (save : (op.compute env prog).save = some next)
  | ran (load env later : Env) (stepId : String) (body : StepRunBody) (step : MigrationStep)
      (applied : Applied)
      (loaded : loadStep load prog stepId = some (refreshStepStatuses load prog, step))
      (apply : applyRunStep env later body (refreshStepStatuses load prog) step = .ok applied)
      (save : Applied.save applied = some next)

/-- The next program binds a run to a step of this one. -/
def Binds (prog next : MigrationProgram) (stepId runId : String) : Prop :=
  ∃ load env later body step,
    loadStep load prog stepId = some (refreshStepStatuses load prog, step) ∧
      applyRunStep env later body (refreshStepStatuses load prog) step = .ok (.bound next runId)

theorem Derived.settles {prog next : MigrationProgram} (h : Derived prog next)
    (hdraft : prog.status ≠ .draft) : Settles prog next := by
  cases h with
  | operated env op save => exact settles_saved hdraft (compute_saved save).2
  | ran load env later stepId body step applied loaded apply save =>
    obtain ⟨found, hfind, hpair⟩ := Option.map_eq_some_iff.mp loaded
    cases hpair
    obtain ⟨-, hid⟩ := findStep_spec hfind
    subst hid
    cases applied with
    | planned saved =>
      cases save
      cases applyRunStep_cases apply with
      | planned ph =>
        have hhashed : Settles (refreshStepStatuses load prog) (replaceStep
            (refreshStepStatuses load prog) step.stepId (hashed step ph).toStepData) :=
          settles_replaceStep hfind fun hnot => ⟨rfl, hnot⟩
        exact (settles_refresh load prog).trans hhashed
    | idempotent runId => cases save
    | bound saved runId =>
      cases save
      exact (bound_spec loaded apply).2.1

theorem Binds.taken {prog next : MigrationProgram} {stepId runId : String}
    (h : Binds prog next stepId runId) : Taken next stepId runId := by
  obtain ⟨load, env, later, body, step, hload, happly⟩ := h
  exact (bound_spec hload happly).2.2

/-- A step that is taken is not bound again. -/
theorem Binds.untaken {prog next : MigrationProgram} {stepId runId runId' : String}
    (h : Binds prog next stepId runId) : ¬ Taken prog stepId runId' := by
  intro htaken
  obtain ⟨load, env, later, body, step, hload, happly⟩ := h
  obtain ⟨-, found, hfind, -, hnot⟩ := htaken.settles (settles_refresh load prog)
  obtain ⟨same, hsame, hpair⟩ := Option.map_eq_some_iff.mp hload
  cases hpair
  rw [hfind] at hsame
  cases hsame
  rw [(bound_spec hload happly).1] at hnot
  cases hnot

/-- The run that a program shows for a step. -/
def currentRun (prog : MigrationProgram) (stepId : String) : Option String :=
  (findStep prog stepId).bind fun step => step.currentRunId

theorem Taken.currentRun {prog : MigrationProgram} {stepId runId : String}
    (h : Taken prog stepId runId) : currentRun prog stepId = some runId := by
  obtain ⟨-, step, hfind, hrun, -⟩ := h
  simp only [Clients.currentRun, hfind, Option.bind_some, hrun]

/-- A refresh shows the run of the stored step. -/
theorem currentRun_of_load {env : Env} {prog refreshed : MigrationProgram} {stepId : String}
    {step : MigrationStep} (h : loadStep env prog stepId = some (refreshed, step)) :
    currentRun prog stepId = step.currentRunId := by
  obtain ⟨found, hfind, hpair⟩ := Option.map_eq_some_iff.mp h
  cases hpair
  obtain ⟨hmem, hid⟩ := findStep_spec hfind
  obtain ⟨settled, hsteps⟩ := refresh_steps env prog
  rw [hsteps] at hmem
  obtain ⟨s2, hs2, rfl⟩ := mem_mapSteps.mp hmem
  obtain ⟨s1, hs1, rfl⟩ := mem_mapSteps.mp hs2
  obtain ⟨s, hs, rfl⟩ := mem_mapSteps.mp hs1
  have hstored : findStep prog stepId = some s := hid ▸ findStep_of_mem hs
  have hrun : s.currentRunId = (refreshFlight env s.toStepData).currentRunId :=
    (refreshFlight_binding env s.toStepData).1.symm
  simp only [currentRun, hstored, Option.bind_some]
  rw [hrun, (readyStep_binding settled _).1]
  exact (readyStep_binding prog { s with toStepData := refreshFlight env s.toStepData }).1.symm

end Recertia.Program.Clients
