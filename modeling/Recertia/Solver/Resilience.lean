import Mathlib.Algebra.Order.Field.Rat
import Mathlib.Logic.Function.Basic
import Recertia.Lib.Table
import Recertia.Lib.Transition

/-! The circuit of a model (`solver/resilience.py`) under the calls that a model client makes
(`ModelClient.complete`), which run side by side. -/
namespace Recertia.Solver

inductive Outcome
  | ok | clientError | retryable | timeout
  deriving DecidableEq, Repr

/-- What `classify` asks of one exception of a chain of causes. -/
structure Link where
  status : Option Int := none
  isTimeout : Bool := false
  isConnection : Bool := false
  isUrlOrRead : Bool := false

def clientStatus : List Int := [400, 401, 403, 404, 409, 422]

def retryStatus : List Int := [408, 429, 500, 502, 503, 504]

def classifyFrom : ℕ → List Link → Outcome
  | 0, _ => .clientError
  | _, [] => .clientError
  | seen + 1, current :: causes =>
    match current.status with
    | some status =>
      if status ∈ clientStatus then .clientError
      else if status ∈ retryStatus then .retryable
      else .clientError
    | none =>
      if current.isTimeout then .timeout
      else if current.isConnection then .retryable
      else if current.isUrlOrRead then .retryable
      else classifyFrom seen causes

/-- An exception and its causes; six of them are looked at. -/
def classify (chain : List Link) : Outcome := classifyFrom 6 chain

inductive Phase
  | closed | open_ | halfOpen
  deriving DecidableEq, Repr

structure CircuitState where
  phase : Phase := .closed
  failures : List ℚ := []
  openedAt : ℚ := 0
  probe : Bool := false

structure Config where
  threshold : ℕ := 5
  windowS : ℚ := 30
  openS : ℚ := 30

variable (cfg : Config)

/-- `before_call`: the state after it, and whether the call is admitted. -/
def beforeCall (now : ℚ) (s : CircuitState) : CircuitState × Bool :=
  let s := if s.phase = .open_ ∧ cfg.openS ≤ now - s.openedAt
    then { s with phase := .halfOpen, probe := false } else s
  match s.phase with
  | .open_ => (s, false)
  | .halfOpen => if s.probe then (s, false) else ({ s with probe := true }, true)
  | .closed => (s, true)

def recordSuccess (s : CircuitState) : CircuitState :=
  { s with phase := .closed, failures := [], probe := false }

def recordFailure (now : ℚ) (s : CircuitState) : CircuitState :=
  if s.phase = .halfOpen then { s with phase := .open_, openedAt := now, probe := false }
  else
    let failures := (s.failures.filter fun stamp => now - stamp ≤ cfg.windowS) ++ [now]
    if cfg.threshold ≤ failures.length then { s with failures, phase := .open_, openedAt := now }
    else { s with failures }

/-- How `_complete_once` ends: with a response, maybe behind the deadline, with an `Exception`, or
with another `BaseException`. -/
inductive Ended
  | returned (late : Bool)
  | raised (chain : List Link)
  | aborted

/-- What `complete` records of an attempt, or nothing. -/
def Ended.record (now : ℚ) : Ended → Option (CircuitState → CircuitState)
  | .returned late => some (if late then recordFailure cfg now else recordSuccess)
  | .raised chain =>
    match classify chain with
    | .retryable | .timeout => some (recordFailure cfg now)
    | .ok | .clientError => none
  | .aborted => none

def Ended.settle (now : ℚ) (ended : Ended) (s : CircuitState) : CircuitState :=
  match ended.record cfg now with
  | some f => f s
  | none => s

/-- Whether an attempt that ends so is recorded at all. -/
def Ended.recorded : Ended → Bool
  | .returned _ => true
  | .raised chain => classify chain = .retryable || classify chain = .timeout
  | .aborted => false

/-- Provider and model. -/
abbrev Key := String × String

/-- An attempt between `before_call` and its outcome; a probe was admitted half-open. -/
structure Call where
  key : Key
  probe : Bool

structure World where
  circuits : Key → CircuitState
  running : Table ℕ Call
  clock : ℚ

inductive Label
  | beforeCall (id : ℕ) (key : Key) (now : ℚ)
  | settle (id : ℕ) (ended : Ended) (now : ℚ)

def step (w : World) : Label → Option World
  | .beforeCall id key now =>
    if now < w.clock then none
    else
      let (s, admitted) := beforeCall cfg now (w.circuits key)
      if admitted then
        (w.running.insert id ⟨key, s.phase = .halfOpen⟩).map fun running =>
          { circuits := Function.update w.circuits key s, running, clock := now }
      else some { w with circuits := Function.update w.circuits key s, clock := now }
  | .settle id ended now =>
    if now < w.clock then none
    else
      match w.running.get? id with
      | none => none
      | some call => some
          { circuits := Function.update w.circuits call.key
              (ended.settle cfg now (w.circuits call.key))
            running := w.running.delete fun i _ => i = id
            clock := now }

def system : Transition.System World Label := ⟨step cfg⟩

def start (clock : ℚ) : World := ⟨fun _ => {}, .empty, clock⟩

end Recertia.Solver
