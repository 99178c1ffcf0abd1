import Recertia.Lib.Lines
import Recertia.Lib.PyJson

/-! Follow mode of the run event log: framing, the byte-offset cursor, and one bounded pass over
what was appended (`event_follow.py`). -/
namespace Recertia.EventFollow

open Json (PyValue PyDict)
open Lines (Bytes newline isBlank)

/-- `1 << 20`: the longest log line that is delivered. -/
def maxLineBytes : ℕ := 1048576

/-- What `json.loads` does with the bytes of a line: a value, a `ValueError`, or a
`RecursionError` where the nesting is too deep for the interpreter. -/
inductive Loaded
  | value (v : PyValue)
  | valueError
  | recursionError

/-- The `json` module on lines and events. `dumps` may run out of recursion as well. -/
structure Codec where
  loads : Bytes → Loaded
  dumps : PyDict → Option String

/-- An exception that leaves a pass. -/
inductive Crash
  | recursionError
  | typeError
  deriving DecidableEq, Repr

def terminalTypes : List String := ["run.finished", "run.cancelled"]

def isNameChar (c : Char) : Bool :=
  !(c.toNat ≤ 0x1f || c.toNat = 0x7f || c.toNat = 0x85 || c.toNat = 0x2028 || c.toNat = 0x2029)

/-- The SSE `event:` value; anything that could inject a field becomes `unknown`. -/
def eventName (value : PyValue) : String :=
  match value with
  | .str s =>
    if 1 ≤ s.length ∧ s.length ≤ 128 ∧ s.toList.all isNameChar then s else "unknown"
  | _ => "unknown"

structure Frame where
  id : ℕ
  event : String
  data : String
  deriving DecidableEq, Repr

def Frame.text (f : Frame) : String :=
  "id: " ++ toString f.id ++ "\nevent: " ++ f.event ++ "\ndata: " ++ f.data ++ "\n\n"

variable (codec : Codec)

def sseFrame (eventId : ℕ) (event : PyDict) : Except Crash Frame :=
  match codec.dumps event with
  | some data => .ok ⟨eventId, eventName (event.get "type"), data⟩
  | none => .error .recursionError

/-- `event.get("type") in TERMINAL_TYPES`: a set refuses what it cannot hash. -/
def isTerminal (event : PyDict) : Except Crash Bool :=
  match event.get "type" with
  | .str s => .ok (s ∈ terminalTypes)
  | .list _ => .error .typeError
  | .dict _ => .error .typeError
  | _ => .ok false

/-- The event of a line, or nothing where it is blank, not JSON, or not an object. -/
def parseLine (line : Bytes) : Except Crash (Option PyDict) :=
  if isBlank line then .ok none
  else
    match codec.loads line with
    | .value (.dict event) => .ok (some event)
    | .value _ => .ok none
    | .valueError => .ok none
    | .recursionError => .error .recursionError

/-- Whether the event that ends at the offset is terminal. -/
def previousEventIsTerminal (log : Bytes) (offset : ℕ) : Except Crash Bool := do
  let start := offset - maxLineBytes - 1
  let data := (log.drop start).take (offset - start)
  let line := if data.getLast? = some newline then Lines.rest data.dropLast else []
  match ← parseLine codec line with
  | some event => isTerminal event
  | none => return false

structure Follower where
  offset : ℕ
  skipping : Bool
  lastTerminal : Bool
  deriving DecidableEq, Repr

/-- `EventFollower(path, offset)` -/
def Follower.new (log : Bytes) (offset : ℕ) : Except Crash Follower := do
  let lastTerminal ← if 0 < offset then previousEventIsTerminal codec log offset else pure false
  return ⟨offset, false, lastTerminal⟩

/-- The loop over the complete lines of a pass. -/
def consumeLines (f : Follower) : List Bytes → Except Crash (List Frame × Follower)
  | [] => .ok ([], f)
  | line :: lines => do
    let f := { f with offset := f.offset + line.length + 1 }
    match ← parseLine codec line with
    | none => consumeLines f lines
    | some event =>
      let frame ← sseFrame codec f.offset event
      let terminal ← isTerminal event
      let (frames, f) ← consumeLines { f with lastTerminal := terminal } lines
      return (frame :: frames, f)

def consume (f : Follower) (data : Bytes) : Except Crash (List Frame × Follower) :=
  if f.skipping then
    let before := data.takeWhile fun b => b ≠ newline
    if before.length = data.length then .ok ([], { f with offset := f.offset + data.length })
    else .ok ([], { f with offset := f.offset + before.length + 1, skipping := false })
  else if newline ∉ data then
    if maxLineBytes < data.length then
      .ok ([], { f with offset := f.offset + data.length, skipping := true })
    else .ok ([], f)
  else consumeLines codec f (Lines.records (Lines.complete data).dropLast)

/-- What one pass reports. -/
structure Polled where
  frames : List Frame
  done : Bool
  more : Bool
  deriving DecidableEq, Repr

/-- One pass over `log`, which has grown to `size` bytes when its size is read again. A log that
does not exist yet has nothing to say. -/
def poll (log : Option Bytes) (size : ℕ) (f : Follower) : Except Crash (Polled × Follower) :=
  match log with
  | none => .ok (⟨[], false, false⟩, f)
  | some bytes =>
    if bytes.length < f.offset then .ok (⟨[], true, false⟩, f)
    else do
      let data := (bytes.drop f.offset).take (maxLineBytes + 1)
      let (frames, g) ← if data = [] then pure ([], f) else consume codec f data
      return (⟨frames, g.lastTerminal && g.offset = size, g.offset ≠ f.offset && g.offset < size⟩, g)

/-- A client that follows a growing log: the frames it got, what the last pass saw and reported,
and whether an exception ended the stream. -/
structure Session where
  log : Option Bytes
  follower : Follower
  frames : List Frame
  last : Option (Bytes × ℕ × Polled)
  crashed : Bool

inductive Call
  | append (chunk : Bytes)
  | poll (during : Bytes)

/-- Bytes are appended at any time; `during` arrives between the read of a pass and its look at
the size. -/
def Session.step (s : Session) : Call → Session
  | .append chunk => { s with log := some (s.log.getD [] ++ chunk), last := none }
  | .poll during =>
    let grown := s.log.map fun bytes => bytes ++ during
    if s.crashed then { s with log := grown }
    else
      match poll codec s.log (grown.getD []).length s.follower with
      | .ok (polled, f) =>
        { log := grown, follower := f, frames := s.frames ++ polled.frames,
          last := some (s.log.getD [], (grown.getD []).length, polled), crashed := false }
      | .error _ => { s with log := grown, last := none, crashed := true }

def Session.run (s : Session) (calls : List Call) : Session := calls.foldl (Session.step codec) s

def Session.bytes (s : Session) : Bytes := s.log.getD []

/-- A client that connects to a run with no event yet. -/
def Session.start : Session := ⟨none, ⟨0, false, false⟩, [], none, false⟩

/-- A client that reconnects. -/
def Session.resume (s : Session) (f : Follower) : Session := ⟨s.log, f, [], none, false⟩

end Recertia.EventFollow
