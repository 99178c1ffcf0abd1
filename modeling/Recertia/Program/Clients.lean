import Recertia.Idempotency.KeyStore
import Recertia.Program.Sequence

/-! Clients of one program: a request reads it, computes, and saves if the version that it has read
is still the stored one; a bind under a key holds the row of its key meanwhile. -/
namespace Recertia.Program.Clients

open Idempotency (KeyScope Keys Outcome Completion Reservation)

inductive Answer
  | ok
  | run (stepId runId : String)
  | failed (error : ServiceError)
  deriving DecidableEq

/-- A bind with an idempotency key. -/
structure KeyedBind where
  stepId : String
  body : StepRunBody
  key : String
  bindRunId : String

/-- The key only guards a bind. -/
def keyedBind : Operation → Option KeyedBind
  | .runStep stepId body =>
    match body.idempotencyKey, body.planOnly, body.bindRunId with
    | some key, false, some bindRunId => some { stepId, body, key, bindRunId }
    | _, _, _ => none
  | _ => none

/-- The program that the clients share, and the parameters of the key store. -/
structure Site where
  tenantId : String
  programId : String
  requestHash : StepRunBody → String
  ttl : Int

def Site.scope (site : Site) (bind : KeyedBind) : KeyScope :=
  ⟨site.tenantId, site.programId, bind.stepId, bind.key⟩

structure Held where
  bind : KeyedBind
  lease : Int

/-- What comes behind a save. -/
inductive After
  | answer (op : Operation) (saved : Answer)
  | complete (held : Held) (runId : String)

/-- Where a request stands. -/
inductive Phase
  | idle
  | arrived (op : Operation)
  | reserving (bind : KeyedBind)
  | replaying (bind : KeyedBind) (runId : String)
  /-- a preview whose save was refused -/
  | previewing (stepId : String)
  | holding (held : Held) (takenOver : Bool)
  | saving (read next : MigrationProgram) (after : After)
  | completing (held : Held) (runId : String)
  /-- without an answer when the request is interrupted -/
  | releasing (held : Held) (answer : Option Answer)
  | answered (answer : Answer)
  | dead

abbrev CallId := ℕ

structure World where
  program : MigrationProgram
  keys : Keys
  now : Int
  calls : CallId → Phase

/-- `load` is what a request finds when it reads the program, `env` when it checks the bind, and
`later` when it refreshes behind it. -/
inductive Label
  | tick (seconds : ℕ)
  | arrive (c : CallId) (op : Operation)
  | read (c : CallId) (load env later : Env)
  | reserve (c : CallId) (chosen : List KeyScope)
  | reload (c : CallId) (env : Env)
  | apply (c : CallId) (load env later : Env)
  | save (c : CallId)
  | complete (c : CallId)
  | release (c : CallId)
  | interrupt (c : CallId)
  | crash (c : CallId)

def World.setCall (w : World) (c : CallId) (phase : Phase) : World :=
  { w with calls := Function.update w.calls c phase }

def computedAnswer (computed : Computed) : Answer :=
  match computed.error with
  | none => .ok
  | some error => .failed error

def changed : ServiceError := .conflict "program changed while this request ran; re-read it and retry"

def stepNotFound : ServiceError := .notFound "step not found"

/-- The answer behind a save that the store refuses. -/
def refusal (op : Operation) (saved : Answer) (storedVersion : ℕ) : Answer :=
  match op with
  | .get => .ok
  | .replace .. => .failed (.preconditionFailed storedVersion)
  | .seedWorkdir .. => saved
  | _ => .failed changed

/-- A request reads the program and computes; a keyed bind looks for its step only. -/
def readPhase (load env later : Env) (op : Operation) (prog : MigrationProgram) : Phase :=
  if !load.permits op.action then .answered (.failed (.forbidden op.action))
  else match keyedBind op, op with
    | some bind, _ =>
      match loadStep load prog bind.stepId with
      | none => .answered (.failed stepNotFound)
      | some _ => .reserving bind
    | none, .runStep stepId body =>
      match loadStep load prog stepId with
      | none => .answered (.failed stepNotFound)
      | some (refreshed, step) =>
        match applyRunStep env later body refreshed step with
        | .error error => .answered (.failed error)
        | .ok (.planned next) => .saving prog next (.answer op .ok)
        | .ok (.idempotent runId) => .answered (.run stepId runId)
        | .ok (.bound next runId) => .saving prog next (.answer op (.run stepId runId))
    | none, op =>
      let computed := op.compute load prog
      match computed.save with
      | none => .answered (computedAnswer computed)
      | some next => .saving prog next (.answer op (computedAnswer computed))

def reservedPhase (bind : KeyedBind) (reservation : Reservation) : Phase :=
  match reservation.outcome, reservation.lease, reservation.runId with
  | .mismatch, _, _ => .answered (.failed .idempotencyMismatch)
  | .inProgress, _, _ => .answered (.failed .idempotencyInProgress)
  | .replay, _, some runId => .replaying bind runId
  | .reserved, some lease, _ => .holding ⟨bind, lease⟩ false
  | .takenOver, some lease, _ => .holding ⟨bind, lease⟩ true
  | _, _, _ => .answered (.failed .stateCorrupt)

/-- A replay reads the program again: it may predate the bind that the key has recorded. -/
def replayAnswer (env : Env) (prog : MigrationProgram) (bind : KeyedBind) (runId : String) :
    Answer :=
  match loadStep env prog bind.stepId with
  | none => .failed stepNotFound
  | some (_, step) =>
    if step.currentRunId ≠ some runId then
      .failed (.conflict "idempotency key already applied; step has moved on")
    else .run bind.stepId runId

/-- The work under the reservation: a row that was taken over from a request whose bind has landed
only needs to be finished. -/
def heldPhase (load env later : Env) (prog : MigrationProgram) (held : Held) (takenOver : Bool) :
    Phase :=
  match loadStep load prog held.bind.stepId with
  | none => .releasing held (some (.failed stepNotFound))
  | some (refreshed, step) =>
    if takenOver ∧ step.currentRunId = some held.bind.bindRunId then
      .completing held held.bind.bindRunId
    else match applyRunStep env later held.bind.body refreshed step with
      | .error error => .releasing held (some (.failed error))
      | .ok (.idempotent runId) => .completing held runId
      | .ok (.bound next runId) => .saving prog next (.complete held runId)
      -- A keyed call is no plan, so this is out of reach.
      | .ok (.planned next) =>
        .saving prog next (.answer (.runStep held.bind.stepId held.bind.body) .ok)

def After.saved : After → Phase
  | .answer _ saved => .answered saved
  | .complete held runId => .completing held runId

def After.refused (storedVersion : ℕ) : After → Phase
  -- A preview reads the program again, and saves nothing.
  | .answer (.previewStep stepId) _ => .previewing stepId
  | .answer op saved => .answered (refusal op saved storedVersion)
  | .complete held _ => .releasing held (some (.failed changed))

def completionAnswer (held : Held) (runId : String) : Completion → Answer
  | .completed => .run held.bind.stepId runId
  | .superseded => .failed .idempotencyInProgress
  | .lost => .failed .stateCorrupt

/-- What an exception that is no answer leaves behind, inside the reservation. -/
def interrupted : Phase → Option Phase
  | .holding held _ => some (.releasing held none)
  | .saving _ _ (.complete held _) => some (.releasing held none)
  | .completing held _ => some (.releasing held none)
  | _ => none

def step (site : Site) (w : World) : Label → Option World
  | .tick seconds => some { w with now := w.now + seconds }
  | .arrive c op =>
    match w.calls c with
    | .idle => some (w.setCall c (.arrived op))
    | _ => none
  | .read c load env later =>
    match w.calls c with
    | .arrived op => some (w.setCall c (readPhase load env later op w.program))
    | _ => none
  | .reserve c chosen =>
    match w.calls c with
    | .reserving bind =>
      let (keys, reservation) := Idempotency.reserve site.ttl w.now chosen w.keys (site.scope bind)
        (site.requestHash bind.body)
      some ({ w with keys }.setCall c (reservedPhase bind reservation))
    | _ => none
  | .reload c env =>
    match w.calls c with
    | .replaying bind runId =>
      some (w.setCall c (.answered (replayAnswer env w.program bind runId)))
    | .previewing stepId =>
      some (w.setCall c (.answered (computedAnswer (previewStep env stepId w.program))))
    | _ => none
  | .apply c load env later =>
    match w.calls c with
    | .holding held takenOver =>
      some (w.setCall c (heldPhase load env later w.program held takenOver))
    | _ => none
  | .save c =>
    match w.calls c with
    | .saving read next after =>
      if w.program.version = read.version then
        some ({ w with program := put (some w.program) next }.setCall c after.saved)
      else some (w.setCall c (after.refused w.program.version))
    | _ => none
  | .complete c =>
    match w.calls c with
    | .completing held runId =>
      let (keys, completion) := Idempotency.complete w.keys (site.scope held.bind)
        (site.requestHash held.bind.body) runId held.lease
      some ({ w with keys }.setCall c (.answered (completionAnswer held runId completion)))
    | _ => none
  | .release c =>
    match w.calls c with
    | .releasing held answer =>
      let keys := Idempotency.release w.keys (site.scope held.bind)
        (site.requestHash held.bind.body) held.lease
      some ({ w with keys }.setCall c (answer.elim .dead .answered))
    | _ => none
  | .interrupt c => (interrupted (w.calls c)).map (w.setCall c)
  | .crash c =>
    match w.calls c with
    | .answered _ => none
    | _ => some (w.setCall c .dead)

def system (site : Site) : Transition.System World Label := ⟨step site⟩

/-- A stored program, no keys and no requests. -/
def start (program : MigrationProgram) (now : Int) : World := ⟨program, .empty, now, fun _ => .idle⟩

end Recertia.Program.Clients
