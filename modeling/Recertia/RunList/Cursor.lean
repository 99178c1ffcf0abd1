import Recertia.Api.RunService
import Recertia.Lib.Base64
import Recertia.Lib.IsoTime
import Recertia.Lib.JsonFlat

/-! The opaque cursor of the run list: URL-safe base64 of canonical JSON, decoded strictly. -/
namespace Recertia.RunList

open Json (Value readFlat scalar)

def maxCursorChars : ℕ := 512

def maxRunIdChars : ℕ := 256

inductive Refusal
  | invalidCursor
  | limitTooSmall
  deriving DecidableEq, Repr

def Refusal.message : Refusal → String
  | .invalidCursor => "invalid cursor"
  | .limitTooSmall => "limit must be at least 1"

/-- A flat payload, in the order of its keys. -/
abbrev Payload := List (String × Option String)

/-- A later member of the same key takes the place of an earlier one. -/
def Payload.set (data : Payload) (item : String × Option String) : Payload :=
  if data.any fun old => old.1 = item.1 then
    data.map fun old => if old.1 = item.1 then item else old
  else data ++ [item]

def encodeCursor (payload : Payload) : String :=
  let raw := (Value.dict (payload.map fun (k, v) => (k, scalar v))).dumps
  String.ofList (Base64.encode (raw.toList.map Char.toNat))

/-- The payload of a cursor, which is refused on anything but a canonical one. -/
def decodeCursor (cursor : String) (expectedKeys : List String) : Except Refusal Payload := do
  if cursor = "" ∨ maxCursorChars < cursor.length then throw .invalidCursor
  let some raw := Base64.decode cursor.toList | throw .invalidCursor
  if raw.any fun b => 128 ≤ b then throw .invalidCursor
  let some members := readFlat (raw.map Char.ofNat) | throw .invalidCursor
  let data := members.foldl Payload.set []
  let keys := data.map Prod.fst
  if ¬ (keys ⊆ expectedKeys ∧ expectedKeys ⊆ keys) then throw .invalidCursor
  if encodeCursor data ≠ cursor then throw .invalidCursor
  return data

/-- Where a run list stopped: the last row's moment, if it is dated, and its run id. -/
structure RunPosition where
  createdAt : Option DateTime
  runId : String
  deriving DecidableEq

def runKeys : List String := ["created_at", "run_id"]

def encodeRunCursor (position : RunPosition) : String :=
  encodeCursor [("created_at", position.createdAt.map DateTime.isoformat),
    ("run_id", some position.runId)]

def Payload.value (data : Payload) (key : String) : Option String :=
  (data.find? fun item => item.1 = key).bind Prod.snd

def decodeRunCursor (cal : Calendar) (cursor : String) : Except Refusal RunPosition := do
  let data ← decodeCursor cursor runKeys
  let some runId := data.value "run_id" | throw .invalidCursor
  if runId = "" ∨ maxRunIdChars < runId.length then throw .invalidCursor
  match data.value "created_at" with
  | none => return ⟨none, runId⟩
  | some raw =>
    match cal.fromisoformat raw with
    | some (parsed, some offset) =>
      match cal.astimezoneUtc parsed offset with
      | some created => return ⟨some created, runId⟩
      | none => throw .invalidCursor
    | _ => throw .invalidCursor

/-- The members of a cursor's object. -/
def RunPosition.payload (position : RunPosition) : Payload :=
  [("created_at", position.createdAt.map DateTime.isoformat), ("run_id", some position.runId)]

end Recertia.RunList
