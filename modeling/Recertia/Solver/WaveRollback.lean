import Recertia.Solver.WavesOnce

/-! When a failed wave is rolled back whole: the serial run of a wave is not undone, and a wave is run
serially whenever the error text of a step mentions a claim timeout, whoever wrote it. -/
namespace Recertia.Solver

variable {W : Type*}

/-- The waves that have been run again raised a `ClaimTimeoutError` in their first run. -/
def Applying.RerunsTimeouts (s : Applying W) : Prop :=
  ∀ idx, (idx, true) ∈ s.started →
    ∃ wave ∈ s.waves, wave.wave = idx ∧ wave.serialisedRetry = false ∧ wave.conflicts ≠ []

/-- A run that returns a failure leaves the workdir as at the start of its last wave; and a wave is
run again only after a `ClaimTimeoutError` of one of its steps. -/
structure RolledBackWhole (version : SkillVersion) (cap : ℕ) (env : ℕ → Bool → Execution W)
    (workdir : W) : Prop where
  restored : ∀ n result s wave, applyFor version cap env workdir n = .returned result s →
    result.ok = false → s.waves.getLast? = some wave → s.workdir = wave.snapshot
  rerun : ∀ n, (applyFor version cap env workdir n).state.RerunsTimeouts

/-- Every step ends with an outcome, and one of them is as `P` says. -/
def Reports (selected : List Step) (outputs : Outputs) (execution : Execution W)
    (P : StepOutcome × Option ResourceConflict → Prop) : Prop :=
  (∀ step ∈ selected, ∃ ended, runOne outputs execution step = .ok ended) ∧
    ∃ step ∈ selected, ∃ ended, runOne outputs execution step = .ok ended ∧ P ended

/-- A wave in which a text mentions a claim timeout has one, and a serial run of it that fails leaves
the workdir as it found it. -/
def TimeoutsHarmless (cap : ℕ) (env : ℕ → Bool → Execution W) (s : Applying W) : Prop :=
  Reports (packWave cap s.ready) s.outputs (env s.waveIdx false)
      (fun ended => ended.1.mentionsTimeout = true) →
    Reports (packWave cap s.ready) s.outputs (env s.waveIdx false) (fun ended => ended.2 ≠ none) ∧
    (Reports (packWave cap s.ready) s.outputs (env s.waveIdx true) (fun ended => ended.1.ok = false) →
      (env s.waveIdx true).workdir s.workdir = s.workdir)

section Runs
variable {version : SkillVersion} {cap : ℕ} {env : ℕ → Bool → Execution W} {workdir : W}
  {s : Applying W} {selected : List Step} {outputs : Outputs} {idx : ℕ} {snapshot : W}
  {execution : Execution W} {wave : WaveResult W}

/-- What the outcomes of a wave say is what its steps report. -/
theorem runWave_reports (hrun : runWave selected outputs idx snapshot execution = .ok wave) :
    (wave.timedOut = true ↔
      Reports selected outputs execution fun ended => ended.1.mentionsTimeout = true) ∧
    (wave.conflicts ≠ [] ↔ Reports selected outputs execution fun ended => ended.2 ≠ none) ∧
    (wave.failed ≠ [] ↔ Reports selected outputs execution fun ended => ended.1.ok = false) := by
  obtain ⟨-, -, -, ended, hended, houtcomes, hconflicts, htime⟩ := runWave_eq_ok hrun
  have hreports : ∀ P : StepOutcome × Option ResourceConflict → Prop,
      Reports selected outputs execution P ↔ ∃ e ∈ ended, P e := by
    intro P
    rw [Fallible.mapM_exists hended]
    exact ⟨fun h => h.2, fun h => ⟨Fallible.mapM_isOk.mp ⟨ended, hended⟩, h⟩⟩
  simp only [hreports]
  refine ⟨?_, ?_, ?_⟩
  · rw [htime, houtcomes]
    simp only [List.any_eq_true, List.mem_map, exists_exists_and_eq_and]
  · rw [hconflicts, ne_eq, List.filterMap_eq_nil_iff]
    simp only [not_forall, exists_prop, ne_eq]
  · unfold WaveResult.failed
    rw [houtcomes, ne_eq, List.filter_eq_nil_iff]
    simp only [List.mem_map, forall_exists_index, and_imp, forall_apply_eq_imp_iff₂, not_forall,
      exists_prop, not_not, Bool.not_eq_true']

theorem runWave_isOk (h : ∀ step ∈ selected, ∃ ended, runOne outputs execution step = .ok ended)
    (idx : ℕ) (snapshot : W) :
    ∃ wave, runWave selected outputs idx snapshot execution = .ok wave := by
  obtain ⟨ended, hended⟩ := Fallible.mapM_isOk.mpr h
  unfold runWave
  rw [hended]
  exact ⟨_, rfl⟩

theorem runWave_serialisedRetry
    (hrun : runWave selected outputs idx snapshot execution = .ok wave) :
    wave.serialisedRetry = false := by
  unfold runWave at hrun
  split at hrun
  · cases hrun
  · cases hrun
    rfl

theorem foldl_retire_frame (outcomes : List StepOutcome) (s : Applying W) :
    (outcomes.foldl Applying.retire s).waves = s.waves ∧
      (outcomes.foldl Applying.retire s).started = s.started ∧
      (outcomes.foldl Applying.retire s).waveIdx = s.waveIdx := by
  induction outcomes generalizing s with
  | nil => exact ⟨rfl, rfl, rfl⟩
  | cons o outcomes ih => exact ih (s.retire o)

/-- Marking steps done changes neither the waves nor what has been started. -/
theorem complete_frame (s : Applying W) (wave : WaveResult W) :
    (s.complete wave).waves = s.waves ∧ (s.complete wave).started = s.started ∧
      (s.complete wave).waveIdx = s.waveIdx + 1 := by
  obtain ⟨hwaves, hstarted, hidx⟩ := foldl_retire_frame wave.outcomes s
  exact ⟨hwaves, hstarted, rfl⟩

theorem Applying.RerunsTimeouts.complete (h : s.RerunsTimeouts) (wave : WaveResult W) :
    (s.complete wave).RerunsTimeouts := by
  obtain ⟨hwaves, hstarted, -⟩ := complete_frame s wave
  unfold Applying.RerunsTimeouts
  rw [hwaves, hstarted]
  exact h

theorem Applying.RerunsTimeouts.restore (h : s.RerunsTimeouts) (snapshot : W) :
    (s.restore snapshot).RerunsTimeouts := h

theorem Applying.RerunsTimeouts.record (h : s.RerunsTimeouts) (wave : WaveResult W) :
    (s.record wave).RerunsTimeouts := by
  intro idx hidx
  obtain ⟨found, hfound, hwhy⟩ := h idx hidx
  exact ⟨found, List.mem_append_left _ hfound, hwhy⟩

/-- The first run of a wave. -/
theorem Applying.RerunsTimeouts.begin (h : s.RerunsTimeouts) (steps : List Step)
    (execution : Execution W) : (s.begin false steps execution).RerunsTimeouts := by
  intro idx hidx
  rcases List.mem_append.mp hidx with hold | hnew
  · exact h idx hold
  · cases List.mem_singleton.mp hnew

/-- The second run of a wave that raised a `ClaimTimeoutError`. -/
theorem Applying.RerunsTimeouts.begin_serial (h : s.RerunsTimeouts) (steps : List Step)
    (execution : Execution W)
    (hwave : ∃ wave ∈ s.waves, wave.wave = s.waveIdx ∧ wave.serialisedRetry = false ∧
      wave.conflicts ≠ []) : (s.begin true steps execution).RerunsTimeouts := by
  intro idx hidx
  rcases List.mem_append.mp hidx with hold | hnew
  · exact h idx hold
  · cases List.mem_singleton.mp hnew
    exact hwave

/-- A pass from a state in which claim timeouts are harmless. -/
theorem applyWave_rerunsTimeouts (h : s.RerunsTimeouts) (hharmless : TimeoutsHarmless cap env s) :
    (applyWave cap env s).state.RerunsTimeouts := by
  have hpass := applyWave_pass cap env s
  generalize applyWave cap env s = progress at hpass
  cases hpass with
  | finished hnil => exact h
  | stuck hleft hnil => exact h
  | raised hready hrun => exact h.begin _ _
  | @completed wave hready hrun htime hok => exact ((h.begin _ _).record wave).complete wave
  | @rolledBack wave hready hrun htime hfailed => exact ((h.begin _ _).record wave).restore _
  | @serialised wave hready hrun htime =>
    set first := (s.firstRun cap env).record wave
    have hfirst : first.RerunsTimeouts := (h.begin _ _).record wave
    obtain ⟨htimedOut, hconflicts, -⟩ := runWave_reports hrun
    have hraised : wave.conflicts ≠ [] :=
      hconflicts.mpr (hharmless (htimedOut.mp htime)).1
    have hwave : ∃ w ∈ (first.restore s.workdir).waves, w.wave = first.waveIdx ∧
        w.serialisedRetry = false ∧ w.conflicts ≠ [] :=
      ⟨wave, List.mem_append_right _ (List.mem_singleton_self wave), (runWave_eq_ok hrun).1,
        runWave_serialisedRetry hrun, hraised⟩
    have hserial := serialise_pass (packWave cap s.ready) s.workdir (env s.waveIdx true) first
    have hbegun := (hfirst.restore s.workdir).begin_serial (packWave cap s.ready)
      (env s.waveIdx true) hwave
    generalize serialise (packWave cap s.ready) s.workdir (env s.waveIdx true) first = progress
      at hserial
    cases hserial with
    | raised hrun' => exact hbegun
    | @completed serial hrun' hok => exact (hbegun.record serial.asRetry).complete serial
    | @failed serial hrun' hfailed => exact hbegun.record serial.asRetry

/-- A pass that returns a failure, in such a state, has put the workdir back. -/
theorem applyWave_restored (hok : s.Ok version) (hharmless : TimeoutsHarmless cap env s)
    {result : ApplyResult} {t : Applying W} (ht : applyWave cap env s = .returned result t)
    (hresult : result.ok = false) {last : WaveResult W} (hlast : t.waves.getLast? = some last) :
    t.workdir = last.snapshot := by
  cases returned_pass ht with
  | finished hnil => cases hresult
  | stuck hleft hnil => exact absurd hnil (ready_ne_nil hok hleft)
  | @rolledBack wave hrun =>
    have hwave : wave = last := by
      apply Option.some.inj
      rw [← hlast]
      exact List.getLast?_concat.symm
    rw [← hwave, (runWave_eq_ok hrun).2.1]
    rfl
  | @failedRetry wave serial hrun htime hserial hfailed =>
    have hwave : serial.asRetry = last := by
      apply Option.some.inj
      rw [← hlast]
      exact List.getLast?_concat.symm
    have hkept := (hharmless ((runWave_reports hrun).1.mp htime)).2
      ((runWave_reports hserial).2.2.mp hfailed)
    rw [← hwave]
    calc (env s.waveIdx true).workdir s.workdir = s.workdir := hkept
      _ = serial.snapshot := (runWave_eq_ok hserial).2.1.symm

/-- A pass that goes on adds one or two runs of its wave. -/
theorem applyWave_waves {t : Applying W} (ht : applyWave cap env s = .running t) :
    ∃ new, t.waves = s.waves ++ new ∧ (∀ w ∈ new, w.wave = s.waveIdx) ∧
      t.waveIdx = s.waveIdx + 1 := by
  cases running_pass ht with
  | @completed wave hready hrun hok =>
    obtain ⟨hwaves, -, hidx⟩ :=
      complete_frame ((s.firstRun cap env).record wave) wave
    refine ⟨[wave], hwaves, fun w hw => ?_, hidx⟩
    rw [List.mem_singleton.mp hw]
    exact (runWave_eq_ok hrun).1
  | @retried wave serial hready hrun hserial hok =>
    set first := (s.firstRun cap env).record wave
    obtain ⟨hwaves, -, hidx⟩ := complete_frame
      (((first.restore s.workdir).begin true (packWave cap s.ready) (env s.waveIdx true)).record
        serial.asRetry) serial
    refine ⟨[wave, serial.asRetry], ?_, fun w hw => ?_, hidx⟩
    · rw [hwaves]
      exact List.append_assoc s.waves [wave] [serial.asRetry]
    · rcases List.mem_cons.mp hw with rfl | hw
      · exact (runWave_eq_ok hrun).1
      · rw [List.mem_singleton.mp hw]
        exact (runWave_eq_ok hserial).1

/-- Waves are numbered in the order of their runs. -/
theorem applyFor_earlier {n : ℕ} (h : applyFor version cap env workdir n = .running s) :
    ∀ wave ∈ s.waves, wave.wave < s.waveIdx := by
  induction n generalizing s with
  | zero =>
    cases h
    exact fun wave hwave => absurd hwave List.not_mem_nil
  | succ n ih =>
    obtain ⟨t, hbefore, hpass⟩ := applyFor_succ h
    obtain ⟨new, hwaves, hnew, hidx⟩ := applyWave_waves hpass
    intro w hw
    rw [hwaves] at hw
    rcases List.mem_append.mp hw with hw | hw
    · have hold := ih hbefore w hw
      omega
    · have hsame := hnew w hw
      omega

/-- A serial run has only the first run of its wave to account for it. -/
theorem first_conflicts {first : Applying W} (hearlier : ∀ w ∈ s.waves, w.wave < s.waveIdx)
    {retries : List (WaveResult W)} (hretries : ∀ w ∈ retries, w.serialisedRetry = true)
    (hwaves : first.waves = s.waves ++ wave :: retries)
    (hstarted : (s.waveIdx, true) ∈ first.started) (h : first.RerunsTimeouts) :
    wave.conflicts ≠ [] := by
  obtain ⟨found, hfound, hidx, hnot, hconflicts⟩ := h s.waveIdx hstarted
  rw [hwaves] at hfound
  rcases List.mem_append.mp hfound with hold | hnew
  · have := hearlier found hold
    omega
  · rcases List.mem_cons.mp hnew with rfl | hretry
    · exact hconflicts
    · rw [hretries found hretry] at hnot
      cases hnot

/-- A wave whose outcomes mention a claim timeout is run again, one step after the other. -/
theorem applyWave_of_mentions
    (hmentions : Reports (packWave cap s.ready) s.outputs (env s.waveIdx false)
      fun ended => ended.1.mentionsTimeout = true) :
    ∃ wave, runWave (packWave cap s.ready) s.outputs s.waveIdx s.workdir (env s.waveIdx false) =
        .ok wave ∧
      applyWave cap env s = serialise (packWave cap s.ready) s.workdir (env s.waveIdx true)
        ((s.firstRun cap env).record wave) := by
  obtain ⟨wave, hrun⟩ := runWave_isOk hmentions.1 s.waveIdx s.workdir
  have htime : wave.timedOut = true := (runWave_reports hrun).1.mpr hmentions
  have hready : s.ready ≠ [] := by
    intro hnil
    obtain ⟨step, hstep, -⟩ := hmentions.2
    rw [hnil] at hstep
    exact absurd hstep List.not_mem_nil
  have hleft : s.remaining ≠ [] := by
    intro hnil
    apply hready
    rw [Applying.ready, hnil]
    rfl
  refine ⟨wave, hrun, ?_⟩
  rw [applyWave, if_neg hleft, if_neg hready]
  dsimp only
  rw [hrun]
  dsimp only
  rw [if_pos htime]

/-- What a rolled back pass says about the wave that it ran again: a step of it had timed out, and
the serial run, if it failed, left the workdir as it found it. -/
theorem harmless_of_serialised (hearlier : ∀ w ∈ s.waves, w.wave < s.waveIdx)
    {progress : ApplyProgress W}
    (hpass : SerialPass (packWave cap s.ready) s.workdir (env s.waveIdx true)
      ((s.firstRun cap env).record wave) progress)
    (hrerun : progress.state.RerunsTimeouts)
    (hrestored : ∀ result t last, progress = .returned result t → result.ok = false →
      t.waves.getLast? = some last → t.workdir = last.snapshot) :
    wave.conflicts ≠ [] ∧
      (Reports (packWave cap s.ready) s.outputs (env s.waveIdx true)
        (fun ended => ended.1.ok = false) → (env s.waveIdx true).workdir s.workdir = s.workdir) := by
  set first := (s.firstRun cap env).record wave
  have hstarted : (s.waveIdx, true) ∈ first.started ++ [(first.waveIdx, true)] :=
    List.mem_append_right _ (List.mem_singleton_self _)
  have hretries : ∀ serial : WaveResult W, ∀ w ∈ [serial.asRetry], w.serialisedRetry = true := by
    intro serial w hw
    rw [List.mem_singleton.mp hw]
    rfl
  cases hpass with
  | @raised exception hrun =>
    refine ⟨first_conflicts hearlier (fun w hw => absurd hw List.not_mem_nil) rfl hstarted
      hrerun, fun hfails => ?_⟩
    obtain ⟨serial, hserial⟩ := runWave_isOk hfails.1 s.waveIdx s.workdir
    have hsame : runWave (packWave cap s.ready) s.outputs s.waveIdx s.workdir
      (env s.waveIdx true) = .error exception := hrun
    rw [hsame] at hserial
    cases hserial
  | @completed serial hrun hok =>
    obtain ⟨hwaves, hstarted', -⟩ := complete_frame
      (((first.restore s.workdir).begin true (packWave cap s.ready) (env s.waveIdx true)).record
        serial.asRetry) serial
    refine ⟨first_conflicts hearlier (hretries serial) ?_ ?_ hrerun,
      fun hfails => absurd hok ((runWave_reports hrun).2.2.mpr hfails)⟩
    · change (Applying.complete _ serial).waves = _
      rw [hwaves]
      exact List.append_assoc s.waves [wave] [serial.asRetry]
    · change (s.waveIdx, true) ∈ (Applying.complete _ serial).started
      rw [hstarted']
      exact hstarted
  | @failed serial hrun hfailed =>
    refine ⟨first_conflicts hearlier (hretries serial)
      (List.append_assoc s.waves [wave] [serial.asRetry]) hstarted hrerun, fun _ => ?_⟩
    have hback := hrestored _ _ serial.asRetry rfl rfl List.getLast?_concat
    calc (env s.waveIdx true).workdir s.workdir = serial.snapshot := hback
      _ = s.workdir := (runWave_eq_ok hrun).2.1

theorem applyFor_rerunsTimeouts
    (hall : ∀ n s, applyFor version cap env workdir n = .running s → TimeoutsHarmless cap env s)
    (n : ℕ) : (applyFor version cap env workdir n).state.RerunsTimeouts := by
  induction n with
  | zero => exact fun idx hidx => absurd hidx List.not_mem_nil
  | succ n ih =>
    unfold applyFor
    cases hbefore : applyFor version cap env workdir n with
    | running s =>
      rw [hbefore] at ih
      exact applyWave_rerunsTimeouts ih (hall n s hbefore)
    | returned result s =>
      rw [hbefore] at ih
      exact ih
    | raised exception s =>
      rw [hbefore] at ih
      exact ih

/-- When a failed wave is rolled back whole, along any run. -/
theorem rolled_back_whole_iff (version : SkillVersion) (cap : ℕ) (env : ℕ → Bool → Execution W)
    (workdir : W) : RolledBackWhole version cap env workdir ↔
      ∀ n s, applyFor version cap env workdir n = .running s → TimeoutsHarmless cap env s := by
  constructor
  · intro h n s hs hmentions
    obtain ⟨wave, hrun, hpass⟩ := applyWave_of_mentions hmentions
    have hnext : applyFor version cap env workdir (n + 1)
        = serialise (packWave cap s.ready) s.workdir (env s.waveIdx true)
          ((s.firstRun cap env).record wave) := by
      rw [applyFor, hs, ← hpass]
    have hrerun := h.rerun (n + 1)
    have hrestored := h.restored (n + 1)
    simp only [hnext] at hrerun hrestored
    rw [← (runWave_reports hrun).2.1]
    exact harmless_of_serialised (applyFor_earlier hs) (serialise_pass _ _ _ _) hrerun hrestored
  · intro hall
    refine ⟨fun n result s wave hs hresult hlast => ?_, applyFor_rerunsTimeouts hall⟩
    obtain ⟨m, t, hrunning, hpass⟩ := applyFor_returned hs
    exact applyWave_restored (applyFor_running hrunning).1 (hall m t hrunning) hpass hresult hlast

end Runs

def fetchStep : Step where
  id := "fetch"
  outputs := []
  inputBindings := []
  outputsUnique := List.nodup_nil
  inputsUnique := List.nodup_nil

def oneStep : SkillVersion where
  steps := [fetchStep]
  nonempty := List.cons_ne_nil _ _
  dag := by decide +kernel

/-- The tool leaves a file behind and fails with a text of the service that it called. -/
def upstreamTimeout : Execution (List String) where
  invoke := fun _ _ _ => .result { ok := false, exitCode := 1, stderr := "upstream: claim timeout" }
  workdir := fun files => files ++ ["half-written"]

/-- Nobody holds a claim, yet the wave is run again; and what the second run leaves stays. -/
theorem not_rolled_back_whole_upstream :
    ¬ RolledBackWhole oneStep 8 (fun _ _ => upstreamTimeout) [] := by
  intro h
  have hrestored := h.restored 1 _ _ _ rfl rfl rfl
  exact absurd hrestored (List.cons_ne_nil _ _)

end Recertia.Solver
