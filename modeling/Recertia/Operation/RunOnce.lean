import Recertia.Lib.Transition
import Mathlib.Logic.Function.Basic

/-! `OperationLedger.run_once` for one operation key: the calls that the threads of one
process make through any number of ledger objects on one database. A claim's `done`
event is only ever set on a claim that has left the map, and a waiter polls anyway, so
the claims keep their owner only. -/
namespace Recertia.Operation
open Transition

abbrev CallId := Nat
abbrev LedgerId := Nat
abbrev ThreadId := Nat

/-- `result_json` decoded: the pending sentinel or a result. -/
inductive Cell (V : Type*)
  | pending
  | result (v : V)
  deriving DecidableEq, Repr

inductive Phase (V : Type*)
  | called
  | looping
  | unclaimed
  | executing
  | publishing (v : V)
  | cleaning
  | returned (v : V)
  | stored (v : V)
  | raised
  /-- left by an exception that no handler of `run_once` catches -/
  | gone
  deriving DecidableEq, Repr

structure Call (V : Type*) where
  ledger : LedgerId
  thread : ThreadId
  waitDeadline : Int := 0
  phase : Phase V := .called
  deriving DecidableEq, Repr

structure LiveClaim where
  owner : ThreadId
  deriving DecidableEq, Repr

structure World (V : Type*) where
  row : Option (Cell V)
  liveClaims : LedgerId → Option LiveClaim
  pendingTimeout : LedgerId → Int
  call : CallId → Call V
  isAlive : ThreadId → Bool
  monotonic : Int

variable {V : Type*}

def setPhase (w : World V) (c : CallId) (p : Phase V) : World V :=
  { w with call := Function.update w.call c { w.call c with phase := p } }

/-- `_live_wait_event`: a claim whose owner has died does not count. -/
def liveWaitEvent (w : World V) (k : LedgerId) : Bool :=
  match w.liveClaims k with
  | none => false
  | some claim => w.isAlive claim.owner

/-- `_install_claim`, for the thread of call `c`. -/
def installClaim (w : World V) (c : CallId) : World V :=
  { w with
    liveClaims := Function.update w.liveClaims (w.call c).ledger (some ⟨(w.call c).thread⟩) }

/-- `_release_claim`: whosever claim is in the map. -/
def releaseClaim (w : World V) (k : LedgerId) : World V :=
  { w with liveClaims := Function.update w.liveClaims k none }

def nextDeadline (w : World V) (k : LedgerId) : Int :=
  w.monotonic + max 30 (w.pendingTimeout k * 6)

/-- The claim transaction of the loop, once past the fence. -/
def poll (w : World V) (c : CallId) : World V :=
  let k := (w.call c).ledger
  match w.row with
  | some (.result v) => setPhase w c (.stored v)
  | some .pending =>
    if liveWaitEvent w k then setPhase w c .unclaimed
    else setPhase (installClaim w c) c .executing
  | none => setPhase (installClaim { w with row := some .pending } c) c .executing

/-- The end of a pass that claimed nothing: past the deadline the safety valve drops the
claim that is in the map, else the call waits until its next pass. -/
def wake (w : World V) (c : CallId) : World V :=
  let call := w.call c
  if call.waitDeadline ≤ w.monotonic then
    let w := releaseClaim w call.ledger
    { w with
      call := Function.update w.call c
        { call with waitDeadline := nextDeadline w call.ledger, phase := .looping } }
  else setPhase w c .looping

/-- `UPDATE operations SET result_json=?`, then the claim is released. -/
def publish (w : World V) (c : CallId) (v : V) : World V :=
  let w := releaseClaim { w with row := w.row.map fun _ => .result v } (w.call c).ledger
  setPhase w c (.returned v)

/-- The `except` block: `DELETE ... AND result_json=<pending>`. -/
def cleanUp (w : World V) (c : CallId) : World V :=
  let row := match w.row with
    | some .pending => none
    | row => row
  setPhase (releaseClaim { w with row } (w.call c).ledger) c .raised

def Phase.isRunning : Phase V → Bool
  | .looping | .unclaimed | .executing | .publishing _ | .cleaning => true
  | _ => false

/-- A thread ends; what it was running ends with it. -/
def threadDies (w : World V) (t : ThreadId) : World V :=
  { w with
    isAlive := Function.update w.isAlive t false
    call := fun c =>
      if (w.call c).thread = t ∧ (w.call c).phase.isRunning then { w.call c with phase := .gone }
      else w.call c }

inductive Label (V : Type*)
  | enter (c : CallId)
  | poll (c : CallId) (fenceOk : Bool)
  | wake (c : CallId)
  | fnReturn (c : CallId) (r : Cell V)
  | fnRaise (c : CallId)
  | publish (c : CallId) (ok : Bool)
  | cleanUp (c : CallId)
  /-- a `BaseException` inside `fn` or a wait -/
  | interrupt (c : CallId)
  | threadDies (t : ThreadId)
  | tick (seconds : Nat)
  deriving DecidableEq, Repr

def step (w : World V) : Label V → Option (World V)
  | .enter c =>
    let call := w.call c
    match call.phase with
    | .called =>
      if w.isAlive call.thread then
        some { w with
          call := Function.update w.call c
            { call with waitDeadline := nextDeadline w call.ledger, phase := .looping } }
      else none
    | _ => none
  | .poll c fenceOk =>
    match (w.call c).phase with
    | .looping => some (if fenceOk then poll w c else setPhase w c .raised)
    | _ => none
  | .wake c =>
    match (w.call c).phase with
    | .unclaimed => some (wake w c)
    | _ => none
  | .fnReturn c r =>
    match (w.call c).phase with
    | .executing =>
      some (setPhase w c (match r with
        -- refused with a `ValueError`
        | .pending => .cleaning
        | .result v => .publishing v))
    | _ => none
  | .fnRaise c =>
    match (w.call c).phase with
    | .executing => some (setPhase w c .cleaning)
    | _ => none
  | .publish c ok =>
    match (w.call c).phase with
    -- a lost fence or a value `json.dumps` refuses raises inside the transaction
    | .publishing v => some (if ok then publish w c v else setPhase w c .cleaning)
    | _ => none
  | .cleanUp c =>
    match (w.call c).phase with
    | .cleaning => some (cleanUp w c)
    | _ => none
  | .interrupt c =>
    match (w.call c).phase with
    | .executing | .looping | .unclaimed => some (setPhase w c .gone)
    | _ => none
  | .threadDies t => some (threadDies w t)
  | .tick seconds => some { w with monotonic := w.monotonic + seconds }

def system : System (World V) (Label V) := ⟨step⟩

/-- The row that earlier processes left, and the calls this process will make. -/
structure Config (V : Type*) where
  row : Option (Cell V)
  pendingTimeout : LedgerId → Int
  ledger : CallId → LedgerId
  thread : CallId → ThreadId
  monotonic : Int

def Config.world (c : Config V) : World V where
  row := c.row
  liveClaims := fun _ => none
  pendingTimeout := c.pendingTimeout
  call := fun i => { ledger := c.ledger i, thread := c.thread i }
  isAlive := fun _ => true
  monotonic := c.monotonic

end Recertia.Operation
