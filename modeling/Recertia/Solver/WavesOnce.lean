import Mathlib.Order.Basic
import Recertia.Solver.Waves

/-! The waves of a version that passes its validators: every step is retired once, after all that it
takes its inputs from. -/
namespace Recertia.Solver

variable {W : Type*}

theorem packFrom_eq (cap : ℕ) (selected ready : List Step) :
    ∃ taken, packFrom cap selected ready = selected ++ taken ∧ taken.Sublist ready := by
  induction ready generalizing selected with
  | nil => exact ⟨[], (List.append_nil selected).symm, List.Sublist.slnil⟩
  | cons step ready ih =>
    unfold packFrom
    split
    · exact ⟨[], (List.append_nil selected).symm, List.nil_sublist _⟩
    · split
      · obtain ⟨taken, heq, hsub⟩ := ih selected
        exact ⟨taken, heq, hsub.cons step⟩
      · obtain ⟨taken, heq, hsub⟩ := ih (selected ++ [step])
        refine ⟨step :: taken, ?_, hsub.cons_cons step⟩
        rw [heq, List.append_assoc, List.singleton_append]

theorem packWave_sublist (cap : ℕ) (ready : List Step) : (packWave cap ready).Sublist ready := by
  obtain ⟨taken, heq, hsub⟩ := packFrom_eq cap [] ready
  unfold packWave
  rw [heq, List.nil_append]
  cases taken with
  | nil => exact List.take_sublist 1 ready
  | cons step taken => exact hsub

/-- Whatever the claims and the cap, a wave has a step. -/
theorem packWave_ne_nil {cap : ℕ} {ready : List Step} (hready : ready ≠ []) :
    packWave cap ready ≠ [] := by
  unfold packWave
  cases hpacked : packFrom cap [] ready with
  | nil =>
    obtain ⟨step, rest, rfl⟩ := List.exists_cons_of_ne_nil hready
    exact List.cons_ne_nil step _
  | cons step selected => exact List.cons_ne_nil step selected

theorem iterateStep_stepId {step : Step} {answer : ℕ → ToolAnswer} {i left : ℕ}
    {last : Option ToolResult} {err : Option String}
    {ended : StepOutcome × Option ResourceConflict}
    (h : iterateStep step answer i left last err = .ok ended) : ended.1.stepId = step.id := by
  induction left generalizing i last err with
  | zero =>
    cases h
    rfl
  | succ left ih =>
    unfold iterateStep at h
    cases hanswer : answer i with
    | raised exception =>
      rw [hanswer] at h
      cases h
    | claimTimeout conflict =>
      rw [hanswer] at h
      cases h
      rfl
    | result r =>
      rw [hanswer] at h
      dsimp only at h
      split at h
      · cases h
        rfl
      · split at h
        · cases h
          rfl
        · exact ih h

theorem runOne_stepId {outputs : Outputs} {execution : Execution W} {step : Step}
    {ended : StepOutcome × Option ResourceConflict}
    (h : runOne outputs execution step = .ok ended) : ended.1.stepId = step.id := by
  unfold runOne at h
  split at h
  · cases h
    rfl
  · exact iterateStep_stepId h

/-- A wave that returns has an outcome for each of its steps, in order. -/
theorem runWave_eq_ok {steps : List Step} {outputs : Outputs} {idx : ℕ} {snapshot : W}
    {execution : Execution W} {wave : WaveResult W}
    (h : runWave steps outputs idx snapshot execution = .ok wave) :
    wave.wave = idx ∧ wave.snapshot = snapshot ∧
      wave.outcomes.map StepOutcome.stepId = steps.map Step.id ∧
      ∃ ended, steps.mapM (runOne outputs execution) = .ok ended ∧
        wave.outcomes = ended.map Prod.fst ∧ wave.conflicts = ended.filterMap Prod.snd ∧
        wave.timedOut = wave.outcomes.any StepOutcome.mentionsTimeout := by
  unfold runWave at h
  cases hended : steps.mapM (runOne outputs execution) with
  | error exception =>
    rw [hended] at h
    cases h
  | ok ended =>
    rw [hended] at h
    cases h
    refine ⟨rfl, rfl, ?_, ended, rfl, rfl, rfl, rfl⟩
    have hall := Fallible.mapM_eq_ok.mp hended
    clear hended
    dsimp only
    induction hall with
    | nil => rfl
    | cons hstep _ ih =>
      simp only [List.map_cons] at ih ⊢
      rw [ih, runOne_stepId hstep]

/-- Recording the outputs of a step adds entries and removes none. -/
theorem foldl_update_isSome (id : String) (value : StepOutput → Value) (declared : List StepOutput)
    (outputs : Outputs) (key : String × String) :
    (declared.foldl (fun outputs output =>
      Function.update outputs (id, output.name) (some (value output))) outputs key).isSome = true ↔
      (outputs key).isSome = true ∨ ∃ output ∈ declared, (id, output.name) = key := by
  induction declared generalizing outputs with
  | nil => simp
  | cons output declared ih =>
    rw [List.foldl_cons, ih]
    by_cases hkey : key = (id, output.name)
    · rw [hkey, Function.update_self]
      simp
    · rw [Function.update_of_ne hkey]
      simp only [List.mem_cons, exists_eq_or_imp, Ne.symm hkey, false_or]

theorem recordOutputs_declared {step : Step} {o : StepOutcome} (hok : o.ok = true)
    (outputs : Outputs) {output : String} (hdeclared : step.declares output = true) :
    (recordOutputs step o outputs (step.id, output)).isSome = true := by
  obtain ⟨result, hresult, hresultOk⟩ := (Option.any_eq_true _ _).mp hok
  obtain ⟨declared, hmem, hname⟩ := List.mem_map.mp (List.contains_iff_mem.mp hdeclared)
  unfold recordOutputs
  rw [hresult]
  dsimp only
  rw [if_pos hresultOk]
  apply (foldl_update_isSome step.id _ step.outputs outputs _).mpr
  exact Or.inr ⟨declared, hmem, by rw [hname]⟩

theorem recordOutputs_kept (step : Step) (o : StepOutcome) {outputs : Outputs}
    {key : String × String} (h : (outputs key).isSome = true) :
    (recordOutputs step o outputs key).isSome = true := by
  unfold recordOutputs
  cases o.result with
  | none => exact h
  | some result =>
    dsimp only
    by_cases hok : result.ok = true
    · rw [if_pos hok]
      exact (foldl_update_isSome step.id _ step.outputs outputs key).mpr (Or.inl h)
    · rw [if_neg hok]
      exact h

def ApplyProgress.isRunning : ApplyProgress W → Bool
  | .running _ => true
  | .returned .. => false
  | .raised .. => false

/-- The sources of the steps are done, and the outputs that they are bound to recorded. -/
def Dispatch.Sourced (d : Dispatch) : Prop :=
  ∀ step ∈ d.steps, ∀ binding ∈ step.inputBindings, binding.sourceStep ∈ d.done ∧
    (d.outputs (binding.sourceStep, binding.output)).isSome = true

/-- The loop ends, never for want of a ready step; whichever way it goes, it dispatches a step only
when its sources are done and its bound outputs recorded; and when it returns ok, each step has been
marked done once, in the wave that has the successful outcome. -/
structure SchedulesOnce (version : SkillVersion) (cap : ℕ) (env : ℕ → Bool → Execution W)
    (workdir : W) : Prop where
  terminates : ∃ n, (applyFor version cap env workdir n).isRunning = false
  satisfiable : ∀ n result s, applyFor version cap env workdir n = .returned result s →
    result.error ≠ some unsatisfiable
  dispatched : ∀ n, ∀ d ∈ (applyFor version cap env workdir n).state.dispatched, d.Sourced
  once : ∀ n result s, applyFor version cap env workdir n = .returned result s →
    result.ok = true → s.done.Perm (version.steps.map Step.id) ∧ ∀ mark ∈ s.retired,
      mark.2.ok = true ∧ ∃ wave ∈ s.waves, wave.wave = mark.1 ∧ mark.2 ∈ wave.outcomes

/-- What holds at the start of every pass. -/
structure Applying.Ok (version : SkillVersion) (s : Applying W) : Prop where
  perm : (s.done ++ s.remaining.map Step.id).Perm (version.steps.map Step.id)
  mem : ∀ step ∈ s.remaining, step ∈ version.steps
  recorded : ∀ step ∈ version.steps, step.id ∈ s.done → ∀ output, step.declares output = true →
    (s.outputs (step.id, output)).isSome = true
  retired : ∀ mark ∈ s.retired, mark.2.ok = true ∧
    ∃ wave ∈ s.waves, wave.wave = mark.1 ∧ mark.2 ∈ wave.outcomes

variable {version : SkillVersion} {s : Applying W}

theorem Applying.Ok.nodup (h : s.Ok version) : (s.done ++ s.remaining.map Step.id).Nodup :=
  h.perm.nodup_iff.mpr version.ids_nodup

theorem done_retire (s : Applying W) (o : StepOutcome) :
    (s.retire o).done = s.done ++ [o.stepId] := by
  unfold Applying.done Applying.retire
  rw [List.map_append, List.map_singleton]

theorem map_filter_other (steps : List Step) (id : String) :
    (steps.filter (Step.other id)).map Step.id = (steps.map Step.id).filter (· != id) := by
  rw [List.filter_map]
  rfl

/-- A step that remains is retired with a successful outcome of its wave. -/
theorem Applying.Ok.retire (h : s.Ok version) {o : StepOutcome}
    (hmem : o.stepId ∈ s.remaining.map Step.id) (hok : o.ok = true)
    (hwave : ∃ wave ∈ s.waves, wave.wave = s.waveIdx ∧ o ∈ wave.outcomes) :
    (s.retire o).Ok version := by
  have hids : (s.remaining.map Step.id).Nodup := (List.nodup_append.mp h.nodup).2.1
  have hleft : (s.retire o).remaining = s.remaining.filter (Step.other o.stepId) := rfl
  obtain ⟨step, hstep, hid⟩ := List.mem_map.mp hmem
  have hfind : s.remaining.find? (Step.hasId o.stepId) = some step := by
    rw [← hid]
    exact find_hasId_self hids hstep
  have houtputs : (s.retire o).outputs = recordOutputs step o s.outputs := by
    unfold Applying.retire
    rw [hfind]
  refine ⟨?_, fun other hother => ?_, fun other hother hdone output hdeclared => ?_, ?_⟩
  · have herase : (s.remaining.filter (Step.other o.stepId)).map Step.id =
        (s.remaining.map Step.id).erase o.stepId := by
      rw [map_filter_other, hids.erase_eq_filter]
    rw [done_retire, hleft, herase, List.append_assoc, List.singleton_append]
    exact (List.Perm.append_left _ (List.perm_cons_erase hmem).symm).trans h.perm
  · rw [hleft] at hother
    exact h.mem other (List.mem_of_mem_filter hother)
  · rw [houtputs]
    rw [done_retire] at hdone
    rcases List.mem_append.mp hdone with hdone | hdone
    · exact recordOutputs_kept step o (h.recorded other hother hdone output hdeclared)
    · -- The step that has just been retired: its id is the outcome's.
      have hsame : other = step := by
        apply List.inj_on_of_nodup_map version.ids_nodup hother (h.mem step hstep)
        rw [hid]
        exact List.mem_singleton.mp hdone
      rw [hsame] at hdeclared ⊢
      exact recordOutputs_declared hok s.outputs hdeclared
  · intro mark hmark
    rcases List.mem_append.mp hmark with hmark | hmark
    · exact h.retired mark hmark
    · rw [List.mem_singleton.mp hmark]
      exact ⟨hok, hwave⟩

theorem mem_remaining_retire {o : StepOutcome} {id : String} (hne : id ≠ o.stepId)
    (hid : id ∈ s.remaining.map Step.id) : id ∈ (s.retire o).remaining.map Step.id := by
  have hleft : (s.retire o).remaining = s.remaining.filter (Step.other o.stepId) := rfl
  rw [hleft, map_filter_other]
  exact List.mem_filter.mpr ⟨hid, bne_iff_ne.mpr hne⟩

/-- The loop that marks the steps of a wave done. -/
theorem Applying.Ok.foldl_retire {outcomes : List StepOutcome} (h : s.Ok version)
    (hnodup : (outcomes.map StepOutcome.stepId).Nodup)
    (hmem : ∀ o ∈ outcomes, o.stepId ∈ s.remaining.map Step.id)
    (hok : ∀ o ∈ outcomes, o.ok = true)
    (hwave : ∀ o ∈ outcomes, ∃ wave ∈ s.waves, wave.wave = s.waveIdx ∧ o ∈ wave.outcomes) :
    (outcomes.foldl Applying.retire s).Ok version ∧
      (outcomes.foldl Applying.retire s).done = s.done ++ outcomes.map StepOutcome.stepId := by
  induction outcomes generalizing s with
  | nil => exact ⟨h, (List.append_nil s.done).symm⟩
  | cons o outcomes ih =>
    rw [List.map_cons] at hnodup
    obtain ⟨hnew, hrest⟩ := List.nodup_cons.mp hnodup
    have hfirst := h.retire (hmem o List.mem_cons_self) (hok o List.mem_cons_self)
      (hwave o List.mem_cons_self)
    obtain ⟨hall, hdone⟩ := ih hfirst hrest
      (fun p hp => by
        have hne : p.stepId ≠ o.stepId := by
          intro heq
          exact hnew (heq ▸ List.mem_map_of_mem hp)
        exact mem_remaining_retire hne (hmem p (List.mem_cons_of_mem o hp)))
      (fun p hp => hok p (List.mem_cons_of_mem o hp))
      (fun p hp => hwave p (List.mem_cons_of_mem o hp))
    refine ⟨hall, ?_⟩
    rw [List.foldl_cons, hdone, done_retire, List.append_assoc, List.singleton_append,
      List.map_cons]

theorem Applying.Ok.begin (h : s.Ok version) (serial : Bool) (steps : List Step)
    (execution : Execution W) : (s.begin serial steps execution).Ok version := ⟨h.perm, h.mem, h.recorded, h.retired⟩

theorem Applying.Ok.restore (h : s.Ok version) (snapshot : W) : (s.restore snapshot).Ok version :=
  ⟨h.perm, h.mem, h.recorded, h.retired⟩

theorem Applying.Ok.record (h : s.Ok version) (wave : WaveResult W) :
    (s.record wave).Ok version := by
  refine ⟨h.perm, h.mem, h.recorded, fun mark hmark => ?_⟩
  obtain ⟨hok, found, hfound, hmatch⟩ := h.retired mark hmark
  exact ⟨hok, found, List.mem_append_left _ hfound, hmatch⟩

/-- A wave of ready steps that all succeeded. -/
theorem Applying.Ok.complete (h : s.Ok version) {selected : List Step}
    (hselected : selected.Sublist s.remaining) {wave recorded : WaveResult W}
    (hids : wave.outcomes.map StepOutcome.stepId = selected.map Step.id)
    (hok : wave.failed = []) (hrecorded : recorded ∈ s.waves) (hidx : recorded.wave = s.waveIdx)
    (hsame : recorded.outcomes = wave.outcomes) :
    (s.complete wave).Ok version ∧ (s.complete wave).done = s.done ++ selected.map Step.id := by
  have hnodup : (wave.outcomes.map StepOutcome.stepId).Nodup := by
    rw [hids]
    exact (hselected.map Step.id).nodup (List.nodup_append.mp h.nodup).2.1
  have hmem : ∀ o ∈ wave.outcomes, o.stepId ∈ s.remaining.map Step.id := by
    intro o ho
    have hid : o.stepId ∈ selected.map Step.id := by
      rw [← hids]
      exact List.mem_map_of_mem ho
    exact (hselected.map Step.id).subset hid
  have hsuccess : ∀ o ∈ wave.outcomes, o.ok = true := by
    intro o ho
    have hnot := List.filter_eq_nil_iff.mp hok o ho
    simpa using hnot
  have hwave : ∀ o ∈ wave.outcomes, ∃ w ∈ s.waves, w.wave = s.waveIdx ∧ o ∈ w.outcomes := by
    intro o ho
    exact ⟨recorded, hrecorded, hidx, hsame ▸ ho⟩
  obtain ⟨hall, hdone⟩ := h.foldl_retire hnodup hmem hsuccess hwave
  refine ⟨⟨hall.perm, hall.mem, hall.recorded, hall.retired⟩, ?_⟩
  rw [← hids]
  exact hdone

/-- A step of the version that is not done remains. -/
theorem mem_remaining (h : s.Ok version) {step : Step} (hstep : step ∈ version.steps)
    (hnot : step.id ∉ s.done) : step ∈ s.remaining := by
  have hid : step.id ∈ s.done ++ s.remaining.map Step.id :=
    h.perm.mem_iff.mpr (List.mem_map_of_mem hstep)
  rcases List.mem_append.mp hid with hdone | hleft
  · exact absurd hdone hnot
  · obtain ⟨other, hother, heq⟩ := List.mem_map.mp hleft
    rw [← List.inj_on_of_nodup_map version.ids_nodup (h.mem other hother) hstep heq]
    exact hother

/-- As long as a step remains, one is ready. -/
theorem ready_ne_nil (h : s.Ok version) (hleft : s.remaining ≠ []) : s.ready ≠ [] := by
  obtain ⟨step, rest, hcons⟩ := List.exists_cons_of_ne_nil hleft
  have hstep : step ∈ s.remaining := by
    rw [hcons]
    exact List.mem_cons_self
  have hnot : step.id ∉ s.done := by
    intro hdone
    exact (List.nodup_append.mp h.nodup).2.2 step.id hdone step.id
      (List.mem_map_of_mem hstep) rfl
  obtain ⟨first, hfirst, hnew, hdeps⟩ :=
    version.exists_ready ⟨step, h.mem step hstep, hnot⟩
  apply List.ne_nil_of_mem (a := first)
  refine List.mem_filter.mpr ⟨mem_remaining h hfirst hnew, ?_⟩
  exact List.all_eq_true.mpr fun d hd => List.contains_iff_mem.mpr (hdeps d hd)

/-- A wave that is packed from the ready steps may be dispatched. -/
theorem packWave_sourced (h : s.Ok version) (cap : ℕ) :
    Dispatch.Sourced ⟨packWave cap s.ready, s.done, s.outputs⟩ := by
  intro step hstep binding hbinding
  obtain ⟨hremaining, hready⟩ := List.mem_filter.mp ((packWave_sublist cap s.ready).subset hstep)
  have hdep : binding.sourceStep ∈ stepDependencies step :=
    List.mem_dedup.mpr (List.mem_map_of_mem hbinding)
  have hdone : binding.sourceStep ∈ s.done :=
    List.contains_iff_mem.mp (List.all_eq_true.mp hready _ hdep)
  obtain ⟨source, hsource, hid, hdeclared⟩ :=
    version.exists_source (h.mem step hremaining) hbinding
  rw [← hid] at hdone ⊢
  exact ⟨hdone, h.recorded source hsource hdone binding.output hdeclared⟩

/-- A pass that goes on has retired the steps of its wave. -/
theorem applyWave_running (h : s.Ok version) {cap : ℕ} {env : ℕ → Bool → Execution W}
    {t : Applying W} (ht : applyWave cap env s = .running t) :
    t.Ok version ∧ s.done.length < t.done.length := by
  have hselected : (packWave cap s.ready).Sublist s.remaining :=
    (packWave_sublist cap s.ready).trans List.filter_sublist
  have hgrows : s.ready ≠ [] → ∀ u : Applying W,
      u.done = s.done ++ (packWave cap s.ready).map Step.id → s.done.length < u.done.length := by
    intro hready u hu
    have hpos : 0 < (packWave cap s.ready).length :=
      List.length_pos_of_ne_nil (packWave_ne_nil hready)
    rw [hu, List.length_append, List.length_map]
    omega
  cases running_pass ht with
  | @completed wave hready hrun hok =>
    obtain ⟨hidx, -, hids, -⟩ := runWave_eq_ok hrun
    obtain ⟨hall, hdone⟩ := ((h.begin false _ _).record wave).complete hselected hids hok
      (List.mem_append_right _ (List.mem_singleton_self wave)) hidx rfl
    exact ⟨hall, hgrows hready _ hdone⟩
  | @retried wave serial hready hrun hserial hok =>
    -- The second completion path: the steps are retired by the serial run, not by the first.
    obtain ⟨hidx, -, hids, -⟩ := runWave_eq_ok hserial
    have hfirst := (h.begin false (packWave cap s.ready) (env s.waveIdx false)).record wave
    have hretried := ((hfirst.restore s.workdir).begin true (packWave cap s.ready)
      (env s.waveIdx true)).record serial.asRetry
    obtain ⟨hall, hdone⟩ := hretried.complete hselected hids hok
      (List.mem_append_right _ (List.mem_singleton_self serial.asRetry)) hidx rfl
    exact ⟨hall, hgrows hready _ hdone⟩

theorem failedText_ne (wave : ℕ) (failed : List StepOutcome) :
    failedText wave failed ≠ unsatisfiable := by
  intro heq
  have hhead : (failedText wave failed).toList.head? = some 'w' := by
    unfold failedText
    rw [String.append_assoc, String.append_assoc, String.toList_append]
    rfl
  rw [heq] at hhead
  exact absurd hhead (by decide)

/-- A pass returns `ok` when nothing remains, and is never stuck. -/
theorem applyWave_returned (h : s.Ok version) {cap : ℕ} {env : ℕ → Bool → Execution W}
    {result : ApplyResult} {t : Applying W} (ht : applyWave cap env s = .returned result t) :
    result.error ≠ some unsatisfiable ∧ (result.ok = true → t = s ∧ s.remaining = []) := by
  cases returned_pass ht with
  | finished hnil => exact ⟨fun herror => (by cases herror), fun _ => ⟨rfl, hnil⟩⟩
  | stuck hleft hnil => exact absurd hnil (ready_ne_nil h hleft)
  | rolledBack hrun =>
    exact ⟨fun herror => failedText_ne _ _ (Option.some.inj herror), fun hok => (by cases hok)⟩
  | failedRetry hrun htime hserial hfailed =>
    refine ⟨fun herror => ?_, fun hok => (by cases hok)⟩
    exact absurd (Option.some.inj herror) (by decide)

variable {cap : ℕ} {env : ℕ → Bool → Execution W} {workdir : W}

theorem start_ok (version : SkillVersion) (workdir : W) :
    Applying.Ok version { remaining := version.steps, workdir } where
  perm := List.Perm.refl _
  mem := fun _ h => h
  recorded := fun _ _ h => absurd h List.not_mem_nil
  retired := fun _ h => absurd h List.not_mem_nil

/-- Every pass that goes on retires a step. -/
theorem applyFor_running {n : ℕ} (h : applyFor version cap env workdir n = .running s) :
    s.Ok version ∧ n ≤ s.done.length := by
  induction n generalizing s with
  | zero =>
    cases h
    exact ⟨start_ok version workdir, Nat.le_refl 0⟩
  | succ n ih =>
    obtain ⟨t, hbefore, hpass⟩ := applyFor_succ h
    obtain ⟨hok, hlength⟩ := ih hbefore
    obtain ⟨hok', hgrown⟩ := applyWave_running hok hpass
    exact ⟨hok', by omega⟩

theorem dispatched_complete (s : Applying W) (wave : WaveResult W) :
    (s.complete wave).dispatched = s.dispatched := by
  unfold Applying.complete
  dsimp only
  generalize wave.outcomes = outcomes
  induction outcomes generalizing s with
  | nil => rfl
  | cons o outcomes ih =>
    rw [List.foldl_cons, ih]
    rfl

/-- Both runs of a wave dispatch the steps that are packed from the ready ones. -/
theorem applyWave_sourced (h : s.Ok version) (hsourced : ∀ d ∈ s.dispatched, d.Sourced) :
    ∀ d ∈ (applyWave cap env s).state.dispatched, d.Sourced := by
  have hpacked := packWave_sourced h cap
  have hfirst : ∀ d ∈ (s.firstRun cap env).dispatched, d.Sourced := by
    intro d hd
    rcases List.mem_append.mp hd with hd | hd
    · exact hsourced d hd
    · exact List.mem_singleton.mp hd ▸ hpacked
  have hpass := applyWave_pass cap env s
  generalize applyWave cap env s = progress at hpass
  cases hpass with
  | finished hnil => exact hsourced
  | stuck hleft hnil => exact hsourced
  | raised hready hrun => exact hfirst
  | rolledBack hready hrun htime hfailed => exact hfirst
  | @completed wave hready hrun htime hok =>
    show ∀ d ∈ (Applying.complete _ wave).dispatched, d.Sourced
    rw [dispatched_complete]
    exact hfirst
  | @serialised wave hready hrun htime =>
    have hserial := serialise_pass (packWave cap s.ready) s.workdir (env s.waveIdx true)
      ((s.firstRun cap env).record wave)
    generalize serialise _ _ _ _ = progress at hserial
    have hsecond : ∀ d ∈ (s.firstRun cap env).dispatched ++
        [⟨packWave cap s.ready, s.done, s.outputs⟩], d.Sourced := by
      intro d hd
      rcases List.mem_append.mp hd with hd | hd
      · exact hfirst d hd
      · exact List.mem_singleton.mp hd ▸ hpacked
    cases hserial with
    | raised hrun' => exact hsecond
    | failed hrun' hfailed => exact hsecond
    | @completed serial hrun' hok =>
      show ∀ d ∈ (Applying.complete _ serial).dispatched, d.Sourced
      rw [dispatched_complete]
      exact hsecond

theorem applyFor_sourced (n : ℕ) :
    ∀ d ∈ (applyFor version cap env workdir n).state.dispatched, d.Sourced := by
  induction n with
  | zero => exact fun d hd => absurd hd List.not_mem_nil
  | succ n ih =>
    unfold applyFor
    cases hbefore : applyFor version cap env workdir n with
    | running t =>
      rw [hbefore] at ih
      exact applyWave_sourced (applyFor_running hbefore).1 ih
    | returned result t =>
      rw [hbefore] at ih
      exact ih
    | raised exception t =>
      rw [hbefore] at ih
      exact ih

theorem applyFor_returned {n : ℕ} {result : ApplyResult}
    (h : applyFor version cap env workdir n = .returned result s) :
    ∃ m t, applyFor version cap env workdir m = .running t ∧
      applyWave cap env t = .returned result s := by
  induction n with
  | zero => cases h
  | succ n ih =>
    unfold applyFor at h
    cases hbefore : applyFor version cap env workdir n with
    | running t =>
      rw [hbefore] at h
      exact ⟨n, t, hbefore, h⟩
    | returned result' t =>
      rw [hbefore] at h
      cases h
      exact ih hbefore
    | raised exception t =>
      rw [hbefore] at h
      cases h

theorem apply_schedules_once (version : SkillVersion) (cap : ℕ) (env : ℕ → Bool → Execution W)
    (workdir : W) : SchedulesOnce version cap env workdir where
  terminates := by
    refine ⟨version.steps.length + 1, ?_⟩
    cases hlast : applyFor version cap env workdir (version.steps.length + 1) with
    | running s =>
      -- More passes than steps would have retired more of them than there are.
      obtain ⟨hok, hlength⟩ := applyFor_running hlast
      have hall := hok.perm.length_eq
      rw [List.length_append, List.length_map, List.length_map] at hall
      omega
    | returned result s => rfl
    | raised exception s => rfl
  satisfiable := by
    intro n result s h
    obtain ⟨m, t, hrunning, hlast⟩ := applyFor_returned h
    exact (applyWave_returned (applyFor_running hrunning).1 hlast).1
  dispatched := applyFor_sourced
  once := by
    intro n result s h hresult
    obtain ⟨m, t, hrunning, hlast⟩ := applyFor_returned h
    have hok := (applyFor_running hrunning).1
    obtain ⟨rfl, hnil⟩ := (applyWave_returned hok hlast).2 hresult
    refine ⟨?_, hok.retired⟩
    have hperm := hok.perm
    rw [hnil, List.map_nil, List.append_nil] at hperm
    exact hperm

end Recertia.Solver
