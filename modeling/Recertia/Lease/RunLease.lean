import Mathlib.Logic.Function.Basic
import Recertia.Lib.Transition

/-! `RunLease` objects of any number of processes over one `(tenant, run_id)`:
the lock file and its `flock`, the per-process thread locks and the `run_leases`
row. `owner_id`, `lock_path`, `lock_dev` and `lock_ino` are written and never
read, so the row leaves them out. -/
namespace Recertia.Lease
open Transition

abbrev Path := String
abbrev Inode := Nat
abbrev Process := Nat
abbrev LeaseId := Nat

inductive LeaseStatus
  | held
  | released
  deriving DecidableEq, Repr

structure LeaseRow where
  fencingToken : Nat
  incarnation : Nat
  heartbeatAt : Int
  heartbeatMono : Int
  lockGen : Option String
  status : LeaseStatus
  deriving DecidableEq, Repr

/-- Where a lease object stands inside `acquire`: past the `flock` with the payload
read, or past the commit of `_record_acquire` with the payload not yet written. -/
inductive AcquirePhase
  | idle
  | locked (fd : Inode) (priorToken : Nat) (priorGen : Option String) (pathExisted : Bool)
  | recorded (fd : Inode) (token incarnation : Nat) (lockGen : String)
  deriving DecidableEq, Repr

structure RunLease where
  path : Path
  process : Process
  ttl : Int
  alive : Bool := true
  token : Option Nat := none
  incarnation : Nat := 1
  fd : Option Inode := none
  held : Bool := false
  phase : AcquirePhase := .idle
  deriving DecidableEq, Repr

structure World where
  win32 : Bool
  row : Option LeaseRow
  lease : LeaseId → RunLease
  threadLock : Process → Path → Bool
  inodeAt : Path → Option Inode
  payload : Inode → Option (Nat × Option String)
  flock : Inode → Option LeaseId
  nextInode : Inode
  wall : Int
  mono : Int

structure RunBusy where
  deriving DecidableEq, Repr

/-- `_expired`: either clock is `ttl` past the last heartbeat, or the monotonic
clock went backwards (a reboot). -/
def expired (w : World) (ttl : Int) (r : LeaseRow) : Bool :=
  ttl ≤ w.wall - r.heartbeatAt || w.mono < r.heartbeatMono || ttl ≤ w.mono - r.heartbeatMono

/-- `_read_lock_payload`: an empty file reads as token 0, one word as a token without a
generation. -/
def readLockPayload (w : World) (fd : Inode) : Nat × Option String :=
  match w.payload fd with
  | none => (0, none)
  | some (token, gen) => (token, gen)

/-- The incarnation `_record_acquire` picks for an existing row. -/
def acquireIncarnation (w : World) (ttl : Int) (r : LeaseRow) (priorGen : Option String)
    (pathExisted : Bool) : Except RunBusy Nat :=
  match r.status with
  | .released => .ok r.incarnation
  | .held =>
    -- same lock file and the flock succeeded: the previous holder died
    if pathExisted && priorGen.isSome && priorGen == r.lockGen then .ok r.incarnation
    else if !expired w ttl r then .error ⟨⟩
    else .ok (r.incarnation + 1)

/-- `_record_acquire`: the row its `BEGIN IMMEDIATE` block commits. -/
def recordAcquire (w : World) (ttl : Int) (token : Nat) (lockGen : String)
    (priorGen : Option String) (pathExisted : Bool) : Except RunBusy LeaseRow :=
  let write (token incarnation : Nat) : LeaseRow :=
    { fencingToken := token, incarnation, heartbeatAt := w.wall, heartbeatMono := w.mono,
      lockGen := some lockGen, status := .held }
  match w.row with
  | none => .ok (write token 1)
  | some r => do
    let incarnation ← acquireIncarnation w ttl r priorGen pathExisted
    return write (max token (r.fencingToken + 1)) incarnation

def setLease (w : World) (i : LeaseId) (l : RunLease) : World :=
  { w with lease := Function.update w.lease i l }

def setThreadLock (w : World) (p : Process) (path : Path) (b : Bool) : World :=
  { w with threadLock := fun q x => if q = p ∧ x = path then b else w.threadLock q x }

/-- `_flock_unlock` on the descriptor that lease `i` opened. -/
def flockUnlock (w : World) (i : LeaseId) (fd : Inode) : World :=
  if w.flock fd = some i then { w with flock := Function.update w.flock fd none } else w

/-- `_release_thread`. -/
def releaseThread (w : World) (i : LeaseId) : World :=
  let l := w.lease i
  if l.held then setThreadLock (setLease w i { l with held := false }) l.process l.path false
  else w

/-- The `except` block of `acquire`: unlock, close, release the thread lock. -/
def acquireFailed (w : World) (i : LeaseId) (fd : Inode) : World :=
  let w := releaseThread (flockUnlock w i fd) i
  setLease w i { w.lease i with phase := .idle }

/-- `acquire` up to the payload read. A busy thread lock or `flock` raises `RunBusy`
and leaves everything as it was. -/
def acquireBegin (w : World) (i : LeaseId) : World :=
  let l := w.lease i
  if w.threadLock l.process l.path then w
  else
    let pathExisted := (w.inodeAt l.path).isSome
    let fd := (w.inodeAt l.path).getD w.nextInode
    if !w.win32 && (w.flock fd).isSome then w
    else
      let w := setThreadLock w l.process l.path true
      let w := if pathExisted then w else
        { w with inodeAt := Function.update w.inodeAt l.path (some fd)
                 payload := Function.update w.payload fd none
                 nextInode := w.nextInode + 1 }
      let w := if w.win32 then w else { w with flock := Function.update w.flock fd (some i) }
      let (priorToken, priorGen) := readLockPayload w fd
      setLease w i { l with held := true, phase := .locked fd priorToken priorGen pathExisted }

/-- `_mark_released`. The statement names the tenant and the run, not the token. -/
def markReleased (w : World) : World :=
  { w with row := w.row.map fun r => { r with status := .released } }

/-- `_touch_row`: `UPDATE ... WHERE ... AND fencing_token=?`. -/
def touchRow (w : World) (token : Option Nat) : World :=
  match token with
  | none => w
  | some t =>
    { w with row := w.row.map fun r =>
        if r.fencingToken = t then { r with heartbeatAt := w.wall, heartbeatMono := w.mono }
        else r }

def heartbeat (w : World) (i : LeaseId) (utimeOk : Bool) : World :=
  let l := w.lease i
  if l.fd.isSome && utimeOk && (w.inodeAt l.path).isSome then touchRow w l.token else w

def release (w : World) (i : LeaseId) : World :=
  let w := markReleased w
  let l := w.lease i
  let w := setLease w i { l with fd := none, token := none, incarnation := 1 }
  let w := match l.fd with
    | none => w
    | some fd => flockUnlock w i fd
  releaseThread w i

/-- A process dies: its lease objects are gone, the kernel drops their `flock`s. -/
def crash (w : World) (p : Process) : World :=
  { w with
    lease := fun i =>
      let l := w.lease i
      if l.process = p then
        { l with alive := false, token := none, fd := none, held := false, phase := .idle }
      else l
    threadLock := fun q x => if q = p then false else w.threadLock q x
    flock := fun fd => (w.flock fd).filter fun i => (w.lease i).process ≠ p }

/-- What exists before any of the lease objects has acquired: a row and lock files
from earlier runs, and the objects' constructor arguments. -/
structure Config where
  win32 : Bool
  row : Option LeaseRow
  path : LeaseId → Path
  process : LeaseId → Process
  ttl : LeaseId → Int
  inodeAt : Path → Option Inode
  payload : Inode → Option (Nat × Option String)
  nextInode : Inode
  wall : Int
  mono : Int

def Config.world (c : Config) : World where
  win32 := c.win32
  row := c.row
  lease := fun i => { path := c.path i, process := c.process i, ttl := c.ttl i }
  threadLock := fun _ _ => false
  inodeAt := c.inodeAt
  payload := c.payload
  flock := fun _ => none
  nextInode := c.nextInode
  wall := c.wall
  mono := c.mono

inductive Label
  | acquireBegin (i : LeaseId)
  | acquireRecord (i : LeaseId) (lockGen : String)
  | acquireFinish (i : LeaseId)
  | acquireAbort (i : LeaseId) (truncated : Bool)
  | heartbeat (i : LeaseId) (utimeOk : Bool)
  | release (i : LeaseId)
  | crash (p : Process)
  | unlink (path : Path)
  | tick (wall mono : Int)
  deriving DecidableEq, Repr

/-- An object runs one method at a time: `acquireBegin`, `heartbeat` and `release`
need it outside `acquire`, the other steps of `acquire` need its phase. -/
def ready (w : World) (i : LeaseId) : Bool :=
  (w.lease i).alive && (w.lease i).phase == .idle

def step (w : World) : Label → Option World
  | .acquireBegin i => if ready w i then some (acquireBegin w i) else none
  | .acquireRecord i lockGen =>
    match (w.lease i).phase with
    | .locked fd priorToken priorGen pathExisted =>
      match recordAcquire w (w.lease i).ttl (priorToken + 1) lockGen priorGen pathExisted with
      | .error _ => some (acquireFailed w i fd)
      | .ok r =>
        some { setLease w i { w.lease i with
                phase := .recorded fd r.fencingToken r.incarnation lockGen } with row := some r }
    | _ => none
  | .acquireFinish i =>
    match (w.lease i).phase with
    | .recorded fd token incarnation lockGen =>
      some { setLease w i { w.lease i with
              phase := .idle, fd := some fd, token := some token, incarnation } with
        payload := Function.update w.payload fd (some (token, some lockGen)) }
    | _ => none
  | .acquireAbort i truncated =>
    match (w.lease i).phase with
    | .idle => none
    | .locked fd _ _ _ => some (acquireFailed w i fd)
    | .recorded fd _ _ _ =>
      let w := acquireFailed w i fd
      some (if truncated then { w with payload := Function.update w.payload fd none } else w)
  | .heartbeat i utimeOk => if ready w i then some (heartbeat w i utimeOk) else none
  | .release i => if ready w i then some (release w i) else none
  | .crash p => some (crash w p)
  | .unlink path => some { w with inodeAt := Function.update w.inodeAt path none }
  | .tick wall mono => some { w with wall, mono }

def system : System World Label := ⟨step⟩

section Frame
variable (w : World) (i j : LeaseId) (fd : Inode)

@[simp] theorem setLease_row (l : RunLease) : (setLease w i l).row = w.row := rfl

@[simp] theorem setThreadLock_row (p : Process) (path : Path) (b : Bool) :
    (setThreadLock w p path b).row = w.row := rfl

@[simp] theorem setThreadLock_lease (p : Process) (path : Path) (b : Bool) :
    (setThreadLock w p path b).lease = w.lease := rfl

@[simp] theorem flockUnlock_row : (flockUnlock w i fd).row = w.row := by
  unfold flockUnlock
  split <;> rfl

@[simp] theorem flockUnlock_lease : (flockUnlock w i fd).lease = w.lease := by
  unfold flockUnlock
  split <;> rfl

@[simp] theorem releaseThread_row : (releaseThread w i).row = w.row := by
  unfold releaseThread
  dsimp only
  split <;> rfl

@[simp] theorem acquireFailed_row : (acquireFailed w i fd).row = w.row := by
  simp only [acquireFailed, setLease_row, releaseThread_row, flockUnlock_row]

@[simp] theorem acquireBegin_row : (acquireBegin w i).row = w.row := by
  unfold acquireBegin
  dsimp only
  split
  · rfl
  · split
    · rfl
    · simp only [setLease_row]
      split <;> split <;> rfl

@[simp] theorem release_row : (release w i).row = w.row.map fun r => { r with status := .released } := by
  unfold release markReleased
  dsimp only
  simp only [releaseThread_row]
  split <;> simp only [flockUnlock_row, setLease_row]

end Frame

/-- A lease object stands for token `t`: it returned it, or its row is committed and
the payload write is still to come. -/
def RunLease.Claims (l : RunLease) (t : Nat) : Prop :=
  l.token = some t ∨ ∃ fd incarnation gen, l.phase = .recorded fd t incarnation gen

theorem releaseThread_claims (w : World) (i j : LeaseId) (t : Nat) :
    ((releaseThread w i).lease j).Claims t ↔ (w.lease j).Claims t := by
  unfold releaseThread
  dsimp only
  split
  · by_cases hj : j = i
    · subst hj
      simp only [setThreadLock_lease, setLease, Function.update_self, RunLease.Claims]
    · simp only [setThreadLock_lease, setLease, Function.update_of_ne hj]
  · rfl

theorem acquireFailed_claims {w : World} {i j : LeaseId} {fd : Inode} {t : Nat}
    (h : ((acquireFailed w i fd).lease j).Claims t) : (w.lease j).Claims t := by
  unfold acquireFailed at h
  dsimp only [setLease] at h
  by_cases hj : j = i
  · subst hj
    rw [Function.update_self] at h
    rcases h with h | ⟨_, _, _, h⟩
    · have hc : ((releaseThread (flockUnlock w j fd) j).lease j).Claims t := Or.inl h
      rwa [releaseThread_claims, flockUnlock_lease] at hc
    · cases h
  · rwa [Function.update_of_ne hj, releaseThread_claims, flockUnlock_lease] at h

theorem acquireBegin_claims {w : World} {i j : LeaseId} {t : Nat}
    (h : ((acquireBegin w i).lease j).Claims t) : (w.lease j).Claims t := by
  unfold acquireBegin at h
  dsimp only at h
  split at h
  · exact h
  · split at h
    · exact h
    · by_cases hj : j = i
      · subst hj
        simp only [setLease, Function.update_self] at h
        rcases h with h | ⟨_, _, _, h⟩
        · exact Or.inl h
        · cases h
      · simp only [setLease, Function.update_of_ne hj] at h
        split at h <;> split at h <;> exact h

theorem release_claims {w : World} {i j : LeaseId} {t : Nat}
    (h : ((release w i).lease j).Claims t) : (w.lease j).Claims t := by
  unfold release at h
  dsimp only at h
  rw [releaseThread_claims] at h
  have hset : ((setLease (markReleased w) i { (markReleased w).lease i with
      fd := none, token := none, incarnation := 1 }).lease j).Claims t := by
    split at h
    · exact h
    · rwa [flockUnlock_lease] at h
  by_cases hj : j = i
  · subst hj
    simp only [setLease, Function.update_self] at hset
    rcases hset with hset | hset
    · cases hset
    · exact Or.inr hset
  · simp only [setLease, Function.update_of_ne hj] at hset
    exact hset

theorem recordAcquire_ok {w : World} {ttl : Int} {token : Nat} {lockGen : String}
    {priorGen : Option String} {pathExisted : Bool} {r : LeaseRow}
    (h : recordAcquire w ttl token lockGen priorGen pathExisted = .ok r) :
    r.status = .held ∧ token ≤ r.fencingToken ∧
      ∀ r₀, w.row = some r₀ → r₀.fencingToken < r.fencingToken := by
  unfold recordAcquire at h
  cases hrow : w.row with
  | none =>
    simp only [hrow, Except.ok.injEq] at h
    subst h
    exact ⟨rfl, Nat.le_refl _, fun r₀ hr => by cases hr⟩
  | some r₀ =>
    simp only [hrow] at h
    cases hinc : acquireIncarnation w ttl r₀ priorGen pathExisted with
    | error e => rw [hinc] at h; cases h
    | ok n =>
      rw [hinc] at h
      cases h
      refine ⟨rfl, Nat.le_max_left _ _, fun r₁ hr => ?_⟩
      cases hr
      exact Nat.lt_of_lt_of_le (Nat.lt_succ_self _) (Nat.le_max_right _ _)

/-- Everything a step can do to the row: an acquire writes a held row with a larger
token, a heartbeat with the row's token moves the two timestamps, any release marks
the row, and nothing else touches it. -/
theorem step_row {w w' : World} {l : Label} (h : step w l = some w') :
    w'.row = w.row ∨
    (∃ i gen r, l = .acquireRecord i gen ∧ w'.row = some r ∧ r.status = .held ∧
      ∀ r₀, w.row = some r₀ → r₀.fencingToken < r.fencingToken) ∨
    (∃ i ok r, l = .heartbeat i ok ∧ w.row = some r ∧ (w.lease i).token = some r.fencingToken ∧
      w'.row = some { r with heartbeatAt := w.wall, heartbeatMono := w.mono }) ∨
    (∃ i, l = .release i ∧ w'.row = w.row.map fun r => { r with status := .released }) := by
  cases l with
  | acquireBegin i =>
    simp only [step, Option.ite_none_right_eq_some, Option.some.injEq] at h
    obtain ⟨-, rfl⟩ := h
    exact Or.inl (acquireBegin_row w i)
  | acquireRecord i gen =>
    simp only [step] at h
    split at h
    · rename_i fd priorToken priorGen pathExisted hphase
      split at h
      · cases h
        exact Or.inl (acquireFailed_row w i fd)
      · rename_i r hr
        cases h
        obtain ⟨hheld, -, hlt⟩ := recordAcquire_ok hr
        exact Or.inr (Or.inl ⟨i, gen, r, rfl, rfl, hheld, hlt⟩)
    · cases h
  | acquireFinish i =>
    simp only [step] at h
    split at h
    · cases h
      exact Or.inl rfl
    · cases h
  | acquireAbort i truncated =>
    simp only [step] at h
    split at h
    · cases h
    · cases h
      exact Or.inl (acquireFailed_row w i _)
    · cases h
      left
      split <;> exact acquireFailed_row w i _
  | heartbeat i ok =>
    simp only [step, Option.ite_none_right_eq_some, Option.some.injEq] at h
    obtain ⟨-, rfl⟩ := h
    unfold heartbeat
    dsimp only
    split
    · cases htok : (w.lease i).token with
      | none => exact Or.inl rfl
      | some t =>
        cases hrow : w.row with
        | none => exact Or.inl (by simp only [touchRow, hrow, Option.map_none])
        | some r =>
          by_cases ht : r.fencingToken = t
          · subst ht
            refine Or.inr (Or.inr (Or.inl ⟨i, ok, r, rfl, rfl, htok, ?_⟩))
            simp only [touchRow, hrow, Option.map_some, if_true]
          · refine Or.inl ?_
            simp only [touchRow, hrow, Option.map_some, if_neg ht]
    · exact Or.inl rfl
  | release i =>
    simp only [step, Option.ite_none_right_eq_some, Option.some.injEq] at h
    obtain ⟨-, rfl⟩ := h
    exact Or.inr (Or.inr (Or.inr ⟨i, rfl, release_row w i⟩))
  | crash p =>
    cases h
    exact Or.inl rfl
  | unlink path =>
    cases h
    exact Or.inl rfl
  | tick wall mono =>
    cases h
    exact Or.inl rfl

/-- A lease object comes to claim a token only by committing the row with it. -/
theorem step_claims {w w' : World} {l : Label} {j : LeaseId} {t : Nat}
    (h : step w l = some w') (hc : (w'.lease j).Claims t) :
    (w.lease j).Claims t ∨ ∃ gen r, l = .acquireRecord j gen ∧ w'.row = some r ∧
      r.fencingToken = t ∧ ∀ r₀, w.row = some r₀ → r₀.fencingToken < t := by
  cases l with
  | acquireBegin i =>
    simp only [step, Option.ite_none_right_eq_some, Option.some.injEq] at h
    obtain ⟨-, rfl⟩ := h
    exact Or.inl (acquireBegin_claims hc)
  | acquireRecord i gen =>
    simp only [step] at h
    split at h
    · split at h
      · cases h
        exact Or.inl (acquireFailed_claims hc)
      · rename_i r hr
        cases h
        by_cases hj : j = i
        · subst hj
          simp only [setLease, Function.update_self] at hc
          rcases hc with hc | ⟨fd, inc, g, hc⟩
          · exact Or.inl (Or.inl hc)
          · injection hc with _ ht
            subst ht
            exact Or.inr ⟨gen, r, rfl, rfl, rfl, (recordAcquire_ok hr).2.2⟩
        · simp only [setLease, Function.update_of_ne hj] at hc
          exact Or.inl hc
    · cases h
  | acquireFinish i =>
    simp only [step] at h
    split at h
    · rename_i fd token inc gen hphase
      cases h
      left
      by_cases hj : j = i
      · subst hj
        simp only [setLease, Function.update_self] at hc
        rcases hc with hc | ⟨_, _, _, hc⟩
        · cases hc
          exact Or.inr ⟨fd, inc, gen, hphase⟩
        · cases hc
      · simp only [setLease, Function.update_of_ne hj] at hc
        exact hc
    · cases h
  | acquireAbort i truncated =>
    simp only [step] at h
    split at h
    · cases h
    · cases h
      exact Or.inl (acquireFailed_claims hc)
    · cases h
      left
      split at hc <;> exact acquireFailed_claims hc
  | heartbeat i ok =>
    simp only [step, Option.ite_none_right_eq_some, Option.some.injEq] at h
    obtain ⟨-, rfl⟩ := h
    left
    unfold heartbeat touchRow at hc
    dsimp only at hc
    split at hc
    · split at hc <;> exact hc
    · exact hc
  | release i =>
    simp only [step, Option.ite_none_right_eq_some, Option.some.injEq] at h
    obtain ⟨-, rfl⟩ := h
    exact Or.inl (release_claims hc)
  | crash p =>
    cases h
    left
    simp only [crash] at hc
    split at hc
    · rcases hc with hc | ⟨_, _, _, hc⟩ <;> cases hc
    · exact hc
  | unlink path =>
    cases h
    exact Or.inl hc
  | tick wall mono =>
    cases h
    exact Or.inl hc

/-! The fencing compare against `run_leases` that every guarded write makes. -/

inductive MissingRow
  | reject
  | allow
  deriving DecidableEq, Repr

structure LeaseLost where
  fencingToken : Option Nat
  deriving DecidableEq, Repr

/-- `require_lease_token`. `table` is what the connection finds: `none` without a
database file or a schema that has `run_leases`, else the row of the run. -/
def requireLeaseToken (table : Option (Option LeaseRow)) (fencingToken : Option Nat)
    (missingRow : MissingRow) : Except LeaseLost Unit :=
  let reject := .error ⟨fencingToken⟩
  let missing := if missingRow = .allow then .ok () else reject
  if fencingToken = none ∧ missingRow ≠ .allow then reject
  else
    match table with
    | none => missing
    | some none => missing
    | some (some r) =>
      match r.status with
      | .held => if fencingToken = some r.fencingToken then .ok () else reject
      | .released => reject

/-- `missing_row` as `CheckpointStore.save` and `OperationLedger` choose it. -/
def missingRowFor (fencingToken : Option Nat) : MissingRow :=
  if fencingToken = none then .allow else .reject

theorem require_lease_token_row {r : LeaseRow} {token : Option Nat} {m : MissingRow}
    (h : requireLeaseToken (some (some r)) token m = .ok ()) :
    r.status = .held ∧ token = some r.fencingToken := by
  simp only [requireLeaseToken] at h
  split at h
  · cases h
  · split at h
    · split at h
      · exact ⟨‹_›, ‹_›⟩
      · cases h
    · cases h

theorem require_lease_token_holder {r : LeaseRow} (hr : r.status = .held) (m : MissingRow) :
    requireLeaseToken (some (some r)) (some r.fencingToken) m = .ok () := by
  simp [requireLeaseToken, hr]

/-- A token never passes where the row is missing. -/
theorem require_lease_token_missing {table : Option (Option LeaseRow)} {t : Nat}
    (h : requireLeaseToken table (some t) (missingRowFor (some t)) = .ok ()) :
    ∃ r, table = some (some r) := by
  match table with
  | none => simp [requireLeaseToken, missingRowFor] at h
  | some none => simp [requireLeaseToken, missingRowFor] at h
  | some (some r) => exact ⟨r, rfl⟩

end Recertia.Lease
