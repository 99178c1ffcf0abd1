import Mathlib.Data.List.Perm.Basic
import Recertia.Lib.Text
import Recertia.Solver.Steps

/-! A skill is applied in waves of steps that are ready and whose claims do not conflict. A wave that
fails is rolled back; one with a claim timeout is run again, one step after the other. -/
namespace Recertia.Solver

open Claims (ResourceClaim conflictsWith)

structure ToolResult where
  ok : Bool
  exitCode : Int := 0
  stdout : String := ""
  stderr : String := ""
  deriving DecidableEq, Repr

/-- What a step exposes to later ones. -/
inductive Value
  | text (s : String)
  | code (n : Int)
  deriving DecidableEq, Repr

/-- `_output_value` -/
def outputValue (output : StepOutput) (result : ToolResult) : Value :=
  match output.valueFrom with
  | .exitCode => .code result.exitCode
  | .stderr => .text result.stderr
  | .stdout => .text result.stdout

/-- The wait that a claim timeout reports. -/
structure ResourceConflict where
  claim : ResourceClaim
  waiting : String
  holder : String
  waitedMs : ℕ
  deriving DecidableEq, Repr

def ResourceConflict.text (c : ResourceConflict) : String :=
  "claim timeout: " ++ c.waiting ++ " waited " ++ toString c.waitedMs ++ "ms for " ++
    c.claim.kind.text ++ ":" ++ c.claim.id ++ " held by " ++ c.holder

/-- How an `invoke` ends: it returns, raises a `ClaimTimeoutError`, or anything else. -/
inductive ToolAnswer
  | result (r : ToolResult)
  | claimTimeout (conflict : ResourceConflict)
  | raised (exception : String)
  deriving DecidableEq, Repr

structure StepOutcome where
  stepId : String
  tool : String
  result : Option ToolResult
  error : Option String
  deriving DecidableEq, Repr

def StepOutcome.ok (o : StepOutcome) : Bool := o.result.any ToolResult.ok

def StepOutcome.mentionsTimeout (o : StepOutcome) : Bool :=
  o.error.any fun text => Text.contains text "claim timeout"

/-- `W` is what a workdir holds. -/
structure WaveResult (W : Type*) where
  wave : ℕ
  stepIds : List String
  snapshot : W
  outcomes : List StepOutcome
  conflicts : List ResourceConflict
  timedOut : Bool
  serialisedRetry : Bool := false

structure ApplyResult where
  ok : Bool
  error : Option String := none
  mergeTimeout : Bool := false
  deriving DecidableEq, Repr

def claimsConflict (a b : List ResourceClaim) : Bool := a.any fun ca => b.any (conflictsWith ca)

/-- The loop over the ready steps: a step that conflicts with a selected one is left out. -/
def packFrom (cap : ℕ) : List Step → List Step → List Step
  | selected, [] => selected
  | selected, step :: ready =>
    if cap ≤ selected.length then selected
    else if selected.any fun other => claimsConflict step.resources other.resources then
      packFrom cap selected ready
    else packFrom cap (selected ++ [step]) ready

def packWave (cap : ℕ) (ready : List Step) : List Step :=
  match packFrom cap [] ready with
  | [] => ready.take 1
  | selected => selected

/-- `step_outputs` -/
abbrev Outputs := String × String → Option Value

def bindInput (outputs : Outputs) (binding : InputBinding) : Except String (String × Value) :=
  match outputs (binding.sourceStep, binding.output) with
  | none => .error ("missing bound output " ++ binding.sourceStep ++ "." ++ binding.output)
  | some value => .ok (binding.input, value)

/-- `bind_inputs`, for the inputs that come from other steps -/
def bindInputs (bindings : List InputBinding) (outputs : Outputs) :
    Except String (List (String × Value)) := bindings.mapM (bindInput outputs)

def Step.toolName (step : Step) : String := step.tool.getD "shell"

def Step.maxIter (step : Step) : ℕ :=
  match step.loop with
  | none => 1
  | some loop => loop.maxIterations

/-- `last.stderr or last.stdout` -/
def ToolResult.errorText (r : ToolResult) : String := if r.stderr = "" then r.stdout else r.stderr

/-- The loop of `run_one`, with the iterations that are left. Beside the outcome stands the conflict
of a `ClaimTimeoutError`; other exceptions propagate. -/
def iterateStep (step : Step) (answer : ℕ → ToolAnswer) :
    ℕ → ℕ → Option ToolResult → Option String →
      Except String (StepOutcome × Option ResourceConflict)
  | _, 0, last, err => .ok (⟨step.id, step.toolName, last, err⟩, none)
  | i, left + 1, _, err =>
    match answer i with
    | .raised exception => .error exception
    | .claimTimeout conflict =>
      .ok (⟨step.id, step.toolName, none, some conflict.text⟩, some conflict)
    | .result r =>
      if r.ok then .ok (⟨step.id, step.toolName, some r, err⟩, none)
      else if step.loop.isNone then .ok (⟨step.id, step.toolName, some r, some r.errorText⟩, none)
      else iterateStep step answer (i + 1) left (some r) (some r.errorText)

/-- One run of a wave: what its steps' tools answer to their bound inputs in each iteration, and
what they make of the workdir. -/
structure Execution (W : Type*) where
  invoke : Step → List (String × Value) → ℕ → ToolAnswer
  workdir : W → W

variable {W : Type*}

def runOne (outputs : Outputs) (execution : Execution W) (step : Step) :
    Except String (StepOutcome × Option ResourceConflict) :=
  match bindInputs step.inputBindings outputs with
  | .error text => .ok (⟨step.id, step.toolName, none, some text⟩, none)
  | .ok inputs => iterateStep step (execution.invoke step inputs) 0 step.maxIter none none

/-- `_run_wave`; the outcomes stand in declaration order, whichever step ended first. -/
def runWave (steps : List Step) (outputs : Outputs) (wave : ℕ) (snapshot : W)
    (execution : Execution W) : Except String (WaveResult W) :=
  match steps.mapM (runOne outputs execution) with
  | .error exception => .error exception
  | .ok ended =>
    let outcomes := ended.map Prod.fst
    .ok { wave, snapshot, outcomes
          stepIds := steps.map Step.id
          conflicts := ended.filterMap Prod.snd
          timedOut := outcomes.any StepOutcome.mentionsTimeout }

def WaveResult.failed (w : WaveResult W) : List StepOutcome := w.outcomes.filter fun o => !o.ok

/-- What a run of a wave is given: its steps, with what is done and recorded when it starts. -/
structure Dispatch where
  steps : List Step
  done : List String
  outputs : Outputs

/-- The variables of `apply`. A step is marked done together with its outcome and the wave; beside
them, `started` lists the runs of waves and which of them were serial, and `dispatched` what each
of them was given. -/
structure Applying (W : Type*) where
  remaining : List Step
  retired : List (ℕ × StepOutcome) := []
  outputs : Outputs := fun _ => none
  waveIdx : ℕ := 0
  workdir : W
  waves : List (WaveResult W) := []
  started : List (ℕ × Bool) := []
  dispatched : List Dispatch := []

def Applying.done (s : Applying W) : List String := s.retired.map fun mark => mark.2.stepId

def Applying.isReady (s : Applying W) (step : Step) : Bool :=
  (stepDependencies step).all fun d => s.done.contains d

def Applying.ready (s : Applying W) : List Step := s.remaining.filter s.isReady

/-- `_record_outputs` -/
def recordOutputs (step : Step) (o : StepOutcome) (outputs : Outputs) : Outputs :=
  match o.result with
  | none => outputs
  | some result =>
    if result.ok then
      step.outputs.foldl (fun outputs output =>
        Function.update outputs (step.id, output.name) (some (outputValue output result))) outputs
    else outputs

def Step.other (id : String) (step : Step) : Bool := step.id != id

def Applying.retire (s : Applying W) (o : StepOutcome) : Applying W :=
  { s with
    outputs :=
      match s.remaining.find? (Step.hasId o.stepId) with
      | none => s.outputs
      | some step => recordOutputs step o s.outputs
    retired := s.retired ++ [(s.waveIdx, o)]
    remaining := s.remaining.filter (Step.other o.stepId) }

/-- The wave is done. -/
def Applying.complete (s : Applying W) (wave : WaveResult W) : Applying W :=
  { wave.outcomes.foldl Applying.retire s with waveIdx := s.waveIdx + 1 }

inductive ApplyProgress (W : Type*)
  | running (s : Applying W)
  | returned (result : ApplyResult) (s : Applying W)
  | raised (exception : String) (s : Applying W)

def ApplyProgress.state : ApplyProgress W → Applying W
  | .running s => s
  | .returned _ s => s
  | .raised _ s => s

/-- A run of a wave changes the workdir, whether it returns or raises. -/
def Applying.begin (s : Applying W) (serial : Bool) (steps : List Step)
    (execution : Execution W) : Applying W :=
  { s with
    started := s.started ++ [(s.waveIdx, serial)]
    dispatched := s.dispatched ++ [⟨steps, s.done, s.outputs⟩]
    workdir := execution.workdir s.workdir }

/-- The first run of the wave that is packed from the ready steps. -/
abbrev Applying.firstRun (cap : ℕ) (env : ℕ → Bool → Execution W) (s : Applying W) : Applying W :=
  s.begin false (packWave cap s.ready) (env s.waveIdx false)

def Applying.record (s : Applying W) (wave : WaveResult W) : Applying W :=
  { s with waves := s.waves ++ [wave] }

def Applying.restore (s : Applying W) (snapshot : W) : Applying W := { s with workdir := snapshot }

def WaveResult.asRetry (w : WaveResult W) : WaveResult W := { w with serialisedRetry := true }

/-- `wave_serialise`: the wave is run again from its snapshot, one step after the other. -/
def serialise (selected : List Step) (snapshot : W) (execution : Execution W) (s : Applying W) :
    ApplyProgress W :=
  let t := (s.restore snapshot).begin true selected execution
  match runWave selected s.outputs s.waveIdx snapshot execution with
  | .error exception => .raised exception t
  | .ok serial =>
    if serial.failed = [] then .running ((t.record serial.asRetry).complete serial)
    else
      .returned
        { ok := false, error := some "serialised wave still failed after claim timeout"
          mergeTimeout := true } (t.record serial.asRetry)

def unsatisfiable : String := "unsatisfiable step dependencies at runtime"

def failedText (wave : ℕ) (failed : List StepOutcome) : String :=
  "wave " ++ toString wave ++ " failed: " ++ Text.reprList (failed.map StepOutcome.stepId)

/-- One pass of `while remaining`. -/
def applyWave (cap : ℕ) (env : ℕ → Bool → Execution W) (s : Applying W) : ApplyProgress W :=
  if s.remaining = [] then .returned { ok := true } s
  else if s.ready = [] then .returned { ok := false, error := some unsatisfiable } s
  else
    let selected := packWave cap s.ready
    let t := s.begin false selected (env s.waveIdx false)
    match runWave selected s.outputs s.waveIdx s.workdir (env s.waveIdx false) with
    | .error exception => .raised exception t
    | .ok wave =>
      if wave.timedOut then serialise selected s.workdir (env s.waveIdx true) (t.record wave)
      else if wave.failed = [] then .running ((t.record wave).complete wave)
      else
        .returned { ok := false, error := some (failedText s.waveIdx wave.failed) }
          ((t.record wave).restore s.workdir)

/-- `apply`, up to the start of its `n`-th pass. -/
def applyFor (version : SkillVersion) (cap : ℕ) (env : ℕ → Bool → Execution W) (workdir : W) :
    ℕ → ApplyProgress W
  | 0 => .running { remaining := version.steps, workdir }
  | n + 1 =>
    match applyFor version cap env workdir n with
    | .running s => applyWave cap env s
    | .returned result s => .returned result s
    | .raised exception s => .raised exception s

/-- What is under way after a pass was under way before it. -/
theorem applyFor_succ {version : SkillVersion} {cap : ℕ} {env : ℕ → Bool → Execution W}
    {workdir : W} {n : ℕ} {s : Applying W}
    (h : applyFor version cap env workdir (n + 1) = .running s) :
    ∃ t, applyFor version cap env workdir n = .running t ∧ applyWave cap env t = .running s := by
  unfold applyFor at h
  cases hbefore : applyFor version cap env workdir n with
  | running t =>
    rw [hbefore] at h
    exact ⟨t, rfl, h⟩
  | returned result t =>
    rw [hbefore] at h
    cases h
  | raised exception t =>
    rw [hbefore] at h
    cases h

/-- What one pass does. -/
inductive WavePass (cap : ℕ) (env : ℕ → Bool → Execution W) (s : Applying W) :
    ApplyProgress W → Prop
  | finished (hnil : s.remaining = []) : WavePass cap env s (.returned { ok := true } s)
  | stuck (hleft : s.remaining ≠ []) (hnil : s.ready = []) :
      WavePass cap env s (.returned { ok := false, error := some unsatisfiable } s)
  | raised {exception} (hready : s.ready ≠ [])
      (hrun : runWave (packWave cap s.ready) s.outputs s.waveIdx s.workdir (env s.waveIdx false) =
        .error exception) :
      WavePass cap env s (.raised exception (s.firstRun cap env))
  | completed {wave} (hready : s.ready ≠ [])
      (hrun : runWave (packWave cap s.ready) s.outputs s.waveIdx s.workdir (env s.waveIdx false) =
        .ok wave) (htime : wave.timedOut = false) (hok : wave.failed = []) :
      WavePass cap env s
        (.running (((s.firstRun cap env).record wave).complete wave))
  | rolledBack {wave} (hready : s.ready ≠ [])
      (hrun : runWave (packWave cap s.ready) s.outputs s.waveIdx s.workdir (env s.waveIdx false) =
        .ok wave) (htime : wave.timedOut = false) (hfailed : wave.failed ≠ []) :
      WavePass cap env s (.returned
        { ok := false, error := some (failedText s.waveIdx wave.failed) }
        (((s.firstRun cap env).record wave).restore s.workdir))
  | serialised {wave} (hready : s.ready ≠ [])
      (hrun : runWave (packWave cap s.ready) s.outputs s.waveIdx s.workdir (env s.waveIdx false) =
        .ok wave) (htime : wave.timedOut = true) :
      WavePass cap env s (serialise (packWave cap s.ready) s.workdir (env s.waveIdx true)
        ((s.firstRun cap env).record wave))

theorem applyWave_pass (cap : ℕ) (env : ℕ → Bool → Execution W) (s : Applying W) :
    WavePass cap env s (applyWave cap env s) := by
  unfold applyWave
  by_cases hleft : s.remaining = []
  · rw [if_pos hleft]
    exact .finished hleft
  · rw [if_neg hleft]
    by_cases hready : s.ready = []
    · rw [if_pos hready]
      exact .stuck hleft hready
    · rw [if_neg hready]
      dsimp only
      cases hrun : runWave (packWave cap s.ready) s.outputs s.waveIdx s.workdir
          (env s.waveIdx false) with
      | error exception => exact .raised hready hrun
      | ok wave =>
        dsimp only
        cases htime : wave.timedOut with
        | true => exact .serialised hready hrun htime
        | false =>
          by_cases hok : wave.failed = []
          · simp only [Bool.false_eq_true, if_false, hok, if_true]
            exact .completed hready hrun htime hok
          · simp only [Bool.false_eq_true, if_false, hok]
            exact .rolledBack hready hrun htime hok

/-- What the serial run of a wave does. -/
inductive SerialPass (selected : List Step) (snapshot : W) (execution : Execution W)
    (s : Applying W) : ApplyProgress W → Prop
  | raised {exception}
      (hrun : runWave selected s.outputs s.waveIdx snapshot execution = .error exception) :
      SerialPass selected snapshot execution s
        (.raised exception ((s.restore snapshot).begin true selected execution))
  | completed {serial}
      (hrun : runWave selected s.outputs s.waveIdx snapshot execution = .ok serial)
      (hok : serial.failed = []) :
      SerialPass selected snapshot execution s
        (.running ((((s.restore snapshot).begin true selected execution).record
          serial.asRetry).complete serial))
  | failed {serial}
      (hrun : runWave selected s.outputs s.waveIdx snapshot execution = .ok serial)
      (hfailed : serial.failed ≠ []) :
      SerialPass selected snapshot execution s (.returned
        { ok := false, error := some "serialised wave still failed after claim timeout"
          mergeTimeout := true }
        (((s.restore snapshot).begin true selected execution).record serial.asRetry))

theorem serialise_pass (selected : List Step) (snapshot : W) (execution : Execution W)
    (s : Applying W) :
    SerialPass selected snapshot execution s (serialise selected snapshot execution s) := by
  unfold serialise
  dsimp only
  cases hrun : runWave selected s.outputs s.waveIdx snapshot execution with
  | error exception => exact .raised hrun
  | ok serial =>
    dsimp only
    by_cases hok : serial.failed = []
    · rw [if_pos hok]
      exact .completed hrun hok
    · rw [if_neg hok]
      exact .failed hrun hok

/-- A pass that goes on: its wave is done, in the first run or in the serial one. -/
inductive RunningPass (cap : ℕ) (env : ℕ → Bool → Execution W) (s : Applying W) :
    Applying W → Prop
  | completed {wave} (hready : s.ready ≠ [])
      (hrun : runWave (packWave cap s.ready) s.outputs s.waveIdx s.workdir (env s.waveIdx false) =
        .ok wave) (hok : wave.failed = []) :
      RunningPass cap env s (((s.firstRun cap env).record wave).complete wave)
  | retried {wave serial} (hready : s.ready ≠ [])
      (hrun : runWave (packWave cap s.ready) s.outputs s.waveIdx s.workdir (env s.waveIdx false) =
        .ok wave)
      (hserial : runWave (packWave cap s.ready) s.outputs s.waveIdx s.workdir
        (env s.waveIdx true) = .ok serial) (hok : serial.failed = []) :
      RunningPass cap env s
        ((((((s.firstRun cap env).record wave).restore s.workdir).begin true
          (packWave cap s.ready) (env s.waveIdx true)).record serial.asRetry).complete serial)

theorem running_pass {cap : ℕ} {env : ℕ → Bool → Execution W} {s t : Applying W}
    (ht : applyWave cap env s = .running t) : RunningPass cap env s t := by
  have hpass := applyWave_pass cap env s
  generalize applyWave cap env s = progress at hpass ht
  cases hpass with
  | finished hnil => cases ht
  | stuck hleft hnil => cases ht
  | raised hready hrun => cases ht
  | rolledBack hready hrun htime hfailed => cases ht
  | completed hready hrun htime hok =>
    cases ht
    exact .completed hready hrun hok
  | @serialised wave hready hrun htime =>
    have hserial := serialise_pass (packWave cap s.ready) s.workdir (env s.waveIdx true)
      ((s.firstRun cap env).record wave)
    rw [ht] at hserial
    generalize hprogress : ApplyProgress.running t = progress at hserial
    cases hserial with
    | raised hrun' => cases hprogress
    | failed hrun' hfailed => cases hprogress
    | completed hrun' hok =>
      cases hprogress
      exact .retried hready hrun hrun' hok

/-- A pass that returns: nothing remains, no step is ready, or a wave failed and what it left was
put back, unless it was the serial one. -/
inductive ReturnedPass (cap : ℕ) (env : ℕ → Bool → Execution W) (s : Applying W) :
    ApplyResult → Applying W → Prop
  | finished (hnil : s.remaining = []) : ReturnedPass cap env s { ok := true } s
  | stuck (hleft : s.remaining ≠ []) (hnil : s.ready = []) :
      ReturnedPass cap env s { ok := false, error := some unsatisfiable } s
  | rolledBack {wave}
      (hrun : runWave (packWave cap s.ready) s.outputs s.waveIdx s.workdir (env s.waveIdx false) =
        .ok wave) :
      ReturnedPass cap env s { ok := false, error := some (failedText s.waveIdx wave.failed) }
        (((s.firstRun cap env).record wave).restore s.workdir)
  | failedRetry {wave serial}
      (hrun : runWave (packWave cap s.ready) s.outputs s.waveIdx s.workdir (env s.waveIdx false) =
        .ok wave) (htime : wave.timedOut = true)
      (hserial : runWave (packWave cap s.ready) s.outputs s.waveIdx s.workdir
        (env s.waveIdx true) = .ok serial) (hfailed : serial.failed ≠ []) :
      ReturnedPass cap env s
        { ok := false, error := some "serialised wave still failed after claim timeout"
          mergeTimeout := true }
        (((((s.firstRun cap env).record wave).restore s.workdir).begin true
          (packWave cap s.ready) (env s.waveIdx true)).record serial.asRetry)

theorem returned_pass {cap : ℕ} {env : ℕ → Bool → Execution W} {s t : Applying W}
    {result : ApplyResult} (ht : applyWave cap env s = .returned result t) :
    ReturnedPass cap env s result t := by
  have hpass := applyWave_pass cap env s
  generalize applyWave cap env s = progress at hpass ht
  cases hpass with
  | finished hnil =>
    cases ht
    exact .finished hnil
  | stuck hleft hnil =>
    cases ht
    exact .stuck hleft hnil
  | raised hready hrun => cases ht
  | completed hready hrun htime hok => cases ht
  | rolledBack hready hrun htime hfailed =>
    cases ht
    exact .rolledBack hrun
  | @serialised wave hready hrun htime =>
    have hserial := serialise_pass (packWave cap s.ready) s.workdir (env s.waveIdx true)
      ((s.firstRun cap env).record wave)
    rw [ht] at hserial
    generalize hprogress : ApplyProgress.returned result t = progress at hserial
    cases hserial with
    | raised hrun' => cases hprogress
    | completed hrun' hok => cases hprogress
    | failed hrun' hfailed =>
      cases hprogress
      exact .failedRetry hrun htime hrun' hfailed

end Recertia.Solver
