import Recertia.Lease.Ownership

/-! What a call of `acquire` that raised, or whose process died, leaves for the next one. The
row and the lock file are written one after the other, so the call can end between the two. -/
namespace Recertia.Lease
open Transition

/-- Where the call ends: before the commit of `_record_acquire`, after it with the lock file as
it was, or after `ftruncate` with a part of the payload (`none`, a whole one or a torn one). -/
inductive Cut
  | uncommitted
  | committed
  | truncated (written : Option (Nat × Option String))
  deriving DecidableEq, Repr

inductive Ending
  | raised
  | died
  deriving DecidableEq, Repr

/-- The `except` block of `acquire`, or the death of the process. -/
def stop (w : World) (i : LeaseId) (fd : Inode) : Ending → World
  | .raised => acquireFailed w i fd
  | .died => crash w (w.lease i).process

/-- The world without the call: a process that dies takes its other leases along. -/
def withoutCall (w : World) (i : LeaseId) : Ending → World
  | .raised => w
  | .died => crash w (w.lease i).process

def writeLockFile (w : World) (fd : Inode) : Cut → World
  | .uncommitted => w
  | .committed => w
  | .truncated written => { w with payload := Function.update w.payload fd written }

/-- A call of `acquire` that ends at `cut`, or before it when the call raises `RunBusy`. -/
def failedAcquire (w : World) (i : LeaseId) (lockGen : String) (cut : Cut) (ending : Ending) :
    World :=
  let opened := acquireBegin w i
  match (opened.lease i).phase with
  | .locked fd priorToken priorGen pathExisted =>
    if cut = .uncommitted then stop opened i fd ending
    else
      match recordAcquire opened (opened.lease i).ttl (priorToken + 1) lockGen priorGen
          pathExisted with
      | .error _ => stop opened i fd ending
      | .ok r => stop (writeLockFile { opened with row := some r } fd cut) i fd ending
  | _ => withoutCall w i ending

/-- What `_read_lock_payload` makes of the file at `path`; `O_CREAT` makes an empty one. -/
def lockFile (w : World) (path : Path) : Nat × Option String :=
  match w.inodeAt path with
  | none => (0, none)
  | some fd => readLockPayload w fd

/-- Another process holds the `flock`. -/
def flockBusy (w : World) (path : Path) : Bool :=
  !w.win32 && (w.flock ((w.inodeAt path).getD w.nextInode)).isSome

/-- A call of `acquire` on a new lease object: `RunBusy`, or the row that it commits. -/
def nextAcquire (w : World) (process : Process) (path : Path) (ttl : Int) (lockGen : String) :
    Except RunBusy LeaseRow :=
  if w.threadLock process path || flockBusy w path then .error ⟨⟩
  else
    recordAcquire w ttl ((lockFile w path).1 + 1) lockGen (lockFile w path).2
      (w.inodeAt path).isSome

/-- The row is held, its heartbeat is fresh and the lock file is not the one it names. -/
def heldElsewhere (w : World) (path : Path) (ttl : Int) : Bool :=
  match w.row with
  | none => false
  | some r =>
    r.status == .held && !((lockFile w path).2.isSome && (lockFile w path).2 == r.lockGen) &&
      !expired w ttl r

/-- `acquire` has a reason to raise `RunBusy`. -/
def refused (w : World) (i : LeaseId) : Bool :=
  let l := w.lease i
  w.threadLock l.process l.path || flockBusy w l.path || heldElsewhere w l.path l.ttl

def atTime (w : World) (wall mono : Int) : World := { w with wall, mono }

/-- The next acquire at any later time succeeds or fails as without the call and gets the same
incarnation, and a held row whose token nobody has was there before. -/
structure AtomicOnFailure (w : World) (i : LeaseId) (lockGen : String) (cut : Cut)
    (ending : Ending) : Prop where
  next : ∀ process ttl gen wall mono,
    (nextAcquire (atTime (failedAcquire w i lockGen cut ending) wall mono) process
      (w.lease i).path ttl gen).map (·.incarnation) =
    (nextAcquire (atTime (withoutCall w i ending) wall mono) process
      (w.lease i).path ttl gen).map (·.incarnation)
  row : ∀ r, (failedAcquire w i lockGen cut ending).row = some r → r.status = .held →
    (∀ j, ((failedAcquire w i lockGen cut ending).lease j).token ≠ some r.fencingToken) →
    (withoutCall w i ending).row = some r

/-- What `acquireBegin` does when neither the thread lock nor the `flock` is busy. -/
structure Opened (w : World) (i : LeaseId) (fd : Inode) (u : World) : Prop where
  lease : u.lease = Function.update w.lease i { w.lease i with
    held := true
    phase := .locked fd (lockFile w (w.lease i).path).1 (lockFile w (w.lease i).path).2
      (w.inodeAt (w.lease i).path).isSome }
  inodeAt : u.inodeAt (w.lease i).path = some fd
  file : readLockPayload u fd = lockFile w (w.lease i).path
  threadLock : ∀ q, u.threadLock q (w.lease i).path =
    if q = (w.lease i).process then true else w.threadLock q (w.lease i).path
  threadFree : w.threadLock (w.lease i).process (w.lease i).path = false
  flock : w.win32 = false → u.flock fd = some i
  flockFree : flockBusy w (w.lease i).path = false
  row : u.row = w.row
  win32 : u.win32 = w.win32
  wall : u.wall = w.wall
  mono : u.mono = w.mono

theorem acquireBegin_busy {w : World} {i : LeaseId}
    (h : w.threadLock (w.lease i).process (w.lease i).path = true ∨
      flockBusy w (w.lease i).path = true) : acquireBegin w i = w := by
  unfold acquireBegin
  dsimp only
  by_cases ht : w.threadLock (w.lease i).process (w.lease i).path = true
  · rw [if_pos ht]
  · have hf := h.resolve_left ht
    unfold flockBusy at hf
    rw [if_neg ht, if_pos hf]

/-- `os.open` with `O_CREAT`. -/
def createFile (w : World) (path : Path) : World :=
  let existed := (w.inodeAt path).isSome
  { w with
    inodeAt := if existed then w.inodeAt else Function.update w.inodeAt path (some w.nextInode)
    payload := if existed then w.payload else Function.update w.payload w.nextInode none
    nextInode := if existed then w.nextInode else w.nextInode + 1 }

/-- `_flock_exclusive` on a file that nobody has locked. -/
def takeFlock (w : World) (i : LeaseId) (fd : Inode) : World :=
  { w with flock := if w.win32 then w.flock else Function.update w.flock fd (some i) }

theorem createFile_inodeAt (w : World) (path : Path) :
    (createFile w path).inodeAt path = some ((w.inodeAt path).getD w.nextInode) := by
  unfold createFile
  cases h : w.inodeAt path <;> simp [h]

theorem createFile_file (w : World) (path : Path) :
    readLockPayload (createFile w path) ((w.inodeAt path).getD w.nextInode) =
      lockFile w path := by
  unfold createFile lockFile readLockPayload
  cases h : w.inodeAt path <;> simp

theorem acquireBegin_free {w : World} {i : LeaseId}
    (ht : w.threadLock (w.lease i).process (w.lease i).path = false)
    (hf : flockBusy w (w.lease i).path = false) :
    let l := w.lease i
    let fd := (w.inodeAt l.path).getD w.nextInode
    let u := takeFlock (createFile (setThreadLock w l.process l.path true) l.path) i fd
    acquireBegin w i = setLease u i { l with
      held := true
      phase := .locked fd (readLockPayload u fd).1 (readLockPayload u fd).2
        (w.inodeAt l.path).isSome } := by
  unfold flockBusy at hf
  unfold acquireBegin
  dsimp only
  rw [if_neg (Bool.eq_false_iff.mp ht), if_neg (Bool.eq_false_iff.mp hf)]
  cases hinode : w.inodeAt (w.lease i).path <;> cases hwin : w.win32 <;>
    simp only [takeFlock, createFile, setThreadLock, hinode, hwin] <;> rfl

theorem acquireBegin_opened {w : World} {i : LeaseId}
    (ht : w.threadLock (w.lease i).process (w.lease i).path = false)
    (hf : flockBusy w (w.lease i).path = false) :
    Opened w i ((w.inodeAt (w.lease i).path).getD w.nextInode) (acquireBegin w i) := by
  have hfile := createFile_file
    (setThreadLock w (w.lease i).process (w.lease i).path true) (w.lease i).path
  have hbegin := acquireBegin_free ht hf
  dsimp only at hbegin
  rw [hbegin]
  constructor
  case lease =>
    simp only [setLease]
    congr 1
    exact congrArg (fun file : Nat × Option String => { w.lease i with
      held := true
      phase := .locked ((w.inodeAt (w.lease i).path).getD w.nextInode) file.1 file.2
        (w.inodeAt (w.lease i).path).isSome }) hfile
  case inodeAt =>
    exact createFile_inodeAt (setThreadLock w (w.lease i).process (w.lease i).path true) _
  case file => exact hfile
  case threadLock =>
    intro q
    simp only [setLease, takeFlock, createFile, setThreadLock, and_true]
  case threadFree => exact ht
  case flock =>
    intro hwin
    have hwin' : (createFile (setThreadLock w (w.lease i).process (w.lease i).path true)
        (w.lease i).path).win32 = false := hwin
    simp only [setLease, takeFlock, hwin', Bool.false_eq_true, if_false, Function.update_self]
  case flockFree => exact hf
  all_goals rfl

/-- What the end of a call leaves of `u`, the world in which the call held both locks. -/
structure Stopped (u : World) (i : LeaseId) (fd : Inode) (v : World) : Prop where
  row : v.row = u.row
  win32 : v.win32 = u.win32
  inodeAt : v.inodeAt = u.inodeAt
  payload : v.payload = u.payload
  threadLock : ∀ q, v.threadLock q (u.lease i).path =
    if q = (u.lease i).process then false else u.threadLock q (u.lease i).path
  flock : u.flock fd = some i → v.flock fd = none
  token : ∀ j t, (v.lease j).token = some t → (u.lease j).token = some t

theorem flockUnlock_eq (w : World) (i : LeaseId) (fd : Inode) :
    flockUnlock w i fd = { w with
      flock := if w.flock fd = some i then Function.update w.flock fd none else w.flock } := by
  unfold flockUnlock
  split <;> rfl

theorem acquireFailed_eq {u : World} {i : LeaseId} (fd : Inode)
    (hheld : (u.lease i).held = true) :
    acquireFailed u i fd = setLease (setThreadLock (flockUnlock u i fd) (u.lease i).process
      (u.lease i).path false) i { u.lease i with held := false, phase := .idle } := by
  have hheld' : ((flockUnlock u i fd).lease i).held = true := by
    rw [flockUnlock_lease]
    exact hheld
  unfold acquireFailed releaseThread
  dsimp only
  rw [if_pos hheld', flockUnlock_lease]
  simp only [setLease, setThreadLock, flockUnlock_lease, Function.update_self,
    Function.update_idem]

theorem stop_stopped {u : World} {i : LeaseId} (fd : Inode) (ending : Ending)
    (hheld : (u.lease i).held = true) : Stopped u i fd (stop u i fd ending) := by
  cases ending with
  | raised =>
    show Stopped u i fd (acquireFailed u i fd)
    rw [acquireFailed_eq fd hheld, flockUnlock_eq]
    constructor
    case threadLock =>
      intro q
      simp only [setLease, setThreadLock, and_true]
    case flock =>
      intro hflock
      simp only [setLease, setThreadLock, if_pos hflock, Function.update_self]
    case token =>
      intro j t ht
      by_cases hj : j = i
      · subst hj
        simpa only [setLease, Function.update_self] using ht
      · simpa only [setLease, setThreadLock, Function.update_of_ne hj] using ht
    all_goals rfl
  | died =>
    constructor
    case threadLock => exact fun q => rfl
    case flock =>
      intro hflock
      have hdead : (some i : Option LeaseId).filter
          (fun j => (u.lease j).process ≠ (u.lease i).process) = none := by
        simp
      simpa only [stop, crash, hflock] using hdead
    case token =>
      intro j t ht
      simp only [stop, crash] at ht
      split at ht
      · cases ht
      · exact ht
    all_goals rfl

/-- Everything that an acquire at `path` reads is the same in the two worlds. -/
structure SameView (path : Path) (v w : World) : Prop where
  row : v.row = w.row
  threadLock : ∀ q, v.threadLock q path = w.threadLock q path
  flock : flockBusy v path = flockBusy w path
  file : lockFile v path = lockFile w path

theorem lockFile_existed (w : World) (path : Path) :
    ((w.inodeAt path).isSome && (lockFile w path).2.isSome) = (lockFile w path).2.isSome := by
  unfold lockFile
  cases w.inodeAt path <;> simp

theorem acquireIncarnation_congr {v w : World} (hwall : v.wall = w.wall) (hmono : v.mono = w.mono)
    (ttl : Int) (r : LeaseRow) {gen : Option String} {existed existed' : Bool}
    (hexisted : (existed && gen.isSome) = (existed' && gen.isSome)) :
    acquireIncarnation v ttl r gen existed = acquireIncarnation w ttl r gen existed' := by
  unfold acquireIncarnation expired
  rw [hwall, hmono, hexisted]

theorem recordAcquire_congr {v w : World} (hrow : v.row = w.row) (hwall : v.wall = w.wall)
    (hmono : v.mono = w.mono) (ttl : Int) (token : ℕ) (lockGen : String) {gen : Option String}
    {existed existed' : Bool} (hexisted : (existed && gen.isSome) = (existed' && gen.isSome)) :
    recordAcquire v ttl token lockGen gen existed =
      recordAcquire w ttl token lockGen gen existed' := by
  unfold recordAcquire
  simp only [hrow, hwall, hmono, acquireIncarnation_congr hwall hmono ttl _ hexisted]

theorem nextAcquire_congr {path : Path} {v w : World} (h : SameView path v w) (wall mono : Int)
    (process : Process) (ttl : Int) (gen : String) :
    nextAcquire (atTime v wall mono) process path ttl gen =
      nextAcquire (atTime w wall mono) process path ttl gen := by
  have hlock : (atTime v wall mono).threadLock process path =
      (atTime w wall mono).threadLock process path := h.threadLock process
  have hflock : flockBusy (atTime v wall mono) path = flockBusy (atTime w wall mono) path := h.flock
  have hfile : lockFile (atTime v wall mono) path = lockFile (atTime w wall mono) path := h.file
  have hexisted : (((atTime v wall mono).inodeAt path).isSome &&
      (lockFile (atTime w wall mono) path).2.isSome) =
      (((atTime w wall mono).inodeAt path).isSome &&
      (lockFile (atTime w wall mono) path).2.isSome) := by
    rw [lockFile_existed (atTime w wall mono), ← hfile, lockFile_existed]
  unfold nextAcquire
  rw [hlock, hflock, hfile]
  split
  · rfl
  · exact recordAcquire_congr (v := atTime v wall mono) (w := atTime w wall mono) h.row rfl rfl
      ttl _ gen hexisted

theorem withoutCall_view {w : World} {i : LeaseId} (ending : Ending)
    (ht : w.threadLock (w.lease i).process (w.lease i).path = false)
    (hf : flockBusy w (w.lease i).path = false) :
    (withoutCall w i ending).row = w.row ∧
    (∀ q, (withoutCall w i ending).threadLock q (w.lease i).path =
      if q = (w.lease i).process then false else w.threadLock q (w.lease i).path) ∧
    flockBusy (withoutCall w i ending) (w.lease i).path = false ∧
    lockFile (withoutCall w i ending) (w.lease i).path = lockFile w (w.lease i).path := by
  cases ending with
  | raised =>
    refine ⟨rfl, fun q => ?_, hf, rfl⟩
    split
    · rename_i hq
      rw [hq]
      exact ht
    · rfl
  | died =>
    refine ⟨rfl, fun q => rfl, ?_, rfl⟩
    unfold flockBusy at hf ⊢
    simp only [withoutCall, crash]
    cases hwin : w.win32 with
    | true => rfl
    | false =>
      simp only [hwin, Bool.not_false, Bool.true_and, Option.isSome_eq_false_iff,
        Option.isNone_iff_eq_none] at hf
      rw [hf]
      rfl

/-- A call that ends before the commit leaves nothing that an acquire reads. -/
theorem stop_opened_view {w u : World} {i : LeaseId} {fd : Inode} (ho : Opened w i fd u)
    (ending : Ending) :
    SameView (w.lease i).path (stop u i fd ending) (withoutCall w i ending) := by
  have hlease : (u.lease i) = { w.lease i with
      held := true
      phase := .locked fd (lockFile w (w.lease i).path).1 (lockFile w (w.lease i).path).2
        (w.inodeAt (w.lease i).path).isSome } := by
    rw [ho.lease, Function.update_self]
  have hs : Stopped u i fd (stop u i fd ending) := stop_stopped fd ending (by rw [hlease])
  obtain ⟨hrow, hlock, hflock, hfile⟩ := withoutCall_view ending ho.threadFree ho.flockFree
  have hinode : (stop u i fd ending).inodeAt (w.lease i).path = some fd := by
    rw [hs.inodeAt]
    exact ho.inodeAt
  constructor
  case row => rw [hs.row, ho.row, hrow]
  case threadLock =>
    intro q
    have hq := hs.threadLock q
    rw [hlease] at hq
    rw [hq, hlock, ho.threadLock]
    split <;> rfl
  case flock =>
    rw [hflock]
    unfold flockBusy
    rw [hinode, hs.win32, ho.win32]
    cases hwin : w.win32 with
    | true => rfl
    | false =>
      rw [Option.getD_some, hs.flock (ho.flock hwin)]
      rfl
  case file =>
    rw [hfile, ← ho.file]
    unfold lockFile
    rw [hinode]
    unfold readLockPayload
    rw [hs.payload]

theorem recordAcquire_refuses {w u : World} (path : Path) (ttl : Int) (hrow : u.row = w.row)
    (hwall : u.wall = w.wall) (hmono : u.mono = w.mono) (token : ℕ) (lockGen : String) :
    (∃ e, recordAcquire u ttl token lockGen (lockFile w path).2 (w.inodeAt path).isSome =
      .error e) ↔ heldElsewhere w path ttl = true := by
  rw [recordAcquire_congr hrow hwall hmono ttl token lockGen rfl]
  unfold recordAcquire heldElsewhere
  cases hr : w.row with
  | none => simp
  | some r =>
    have hincarnation : (∃ e, acquireIncarnation w ttl r (lockFile w path).2
        (w.inodeAt path).isSome = .error e) ↔
        (r.status == .held && !((lockFile w path).2.isSome && (lockFile w path).2 == r.lockGen) &&
          !expired w ttl r) = true := by
      unfold acquireIncarnation
      rw [lockFile_existed]
      cases hstatus : r.status with
      | released => simp
      | held =>
        dsimp only
        by_cases hresume : ((lockFile w path).2.isSome && (lockFile w path).2 == r.lockGen) = true
        · rw [if_pos hresume, hresume]
          simp
        · rw [if_neg hresume, Bool.eq_false_iff.mpr hresume]
          cases expired w ttl r with
          | true => simp
          | false => exact ⟨fun _ => by simp, fun _ => ⟨⟨⟩, rfl⟩⟩
    rw [← hincarnation]
    dsimp only
    cases acquireIncarnation w ttl r (lockFile w path).2 (w.inodeAt path).isSome with
    | error e => exact ⟨fun _ => ⟨e, rfl⟩, fun _ => ⟨e, rfl⟩⟩
    | ok n =>
      constructor
      · rintro ⟨e, h⟩
        cases h
      · rintro ⟨e, h⟩
        cases h

/-- Where a call of `acquire` that does not return can have ended. -/
theorem failedAcquire_cases {w : World} {i : LeaseId} (hready : ready w i = true)
    (lockGen : String) (cut : Cut) (ending : Ending) :
    (refused w i = true ∧ failedAcquire w i lockGen cut ending = withoutCall w i ending) ∨
    (∃ fd u, Opened w i fd u ∧ (cut = .uncommitted ∨ refused w i = true) ∧
      failedAcquire w i lockGen cut ending = stop u i fd ending) ∨
    (∃ fd u r, Opened w i fd u ∧ cut ≠ .uncommitted ∧ refused w i = false ∧
      recordAcquire w (w.lease i).ttl ((lockFile w (w.lease i).path).1 + 1) lockGen
        (lockFile w (w.lease i).path).2 (w.inodeAt (w.lease i).path).isSome = .ok r ∧
      failedAcquire w i lockGen cut ending =
        stop (writeLockFile { u with row := some r } fd cut) i fd ending) := by
  by_cases hbusy : w.threadLock (w.lease i).process (w.lease i).path = true ∨
      flockBusy w (w.lease i).path = true
  · left
    have hidle : (w.lease i).phase = .idle := by
      unfold ready at hready
      simp only [Bool.and_eq_true, beq_iff_eq] at hready
      exact hready.2
    constructor
    · unfold refused
      rcases hbusy with h | h <;> simp [h]
    · unfold failedAcquire
      dsimp only
      rw [acquireBegin_busy hbusy, hidle]
  · right
    have ht := Bool.eq_false_iff.mpr fun h => hbusy (Or.inl h)
    have hf := Bool.eq_false_iff.mpr fun h => hbusy (Or.inr h)
    have ho := acquireBegin_opened ht hf
    have hrefused : refused w i = heldElsewhere w (w.lease i).path (w.lease i).ttl := by
      unfold refused
      dsimp only
      rw [ht, hf]
      rfl
    have hrecord := recordAcquire_refuses (w.lease i).path (w.lease i).ttl ho.row ho.wall ho.mono
      ((lockFile w (w.lease i).path).1 + 1) lockGen
    have hsame : recordAcquire (acquireBegin w i) (w.lease i).ttl
        ((lockFile w (w.lease i).path).1 + 1) lockGen (lockFile w (w.lease i).path).2
        (w.inodeAt (w.lease i).path).isSome =
      recordAcquire w (w.lease i).ttl ((lockFile w (w.lease i).path).1 + 1) lockGen
        (lockFile w (w.lease i).path).2 (w.inodeAt (w.lease i).path).isSome :=
      recordAcquire_congr ho.row ho.wall ho.mono _ _ _ rfl
    have hlease : (acquireBegin w i).lease i = { w.lease i with
        held := true
        phase := .locked ((w.inodeAt (w.lease i).path).getD w.nextInode)
          (lockFile w (w.lease i).path).1 (lockFile w (w.lease i).path).2
          (w.inodeAt (w.lease i).path).isSome } := by
      rw [ho.lease, Function.update_self]
    unfold failedAcquire
    dsimp only
    rw [hlease]
    dsimp only
    by_cases hcut : cut = .uncommitted
    · left
      exact ⟨_, _, ho, Or.inl hcut, if_pos hcut⟩
    · rw [if_neg hcut]
      cases hrec : recordAcquire w (w.lease i).ttl ((lockFile w (w.lease i).path).1 + 1) lockGen
          (lockFile w (w.lease i).path).2 (w.inodeAt (w.lease i).path).isSome with
      | error e =>
        rw [hsame, hrec] at hrecord
        rw [hsame, hrec]
        left
        exact ⟨_, _, ho, Or.inr (hrefused.trans (hrecord.mp ⟨e, rfl⟩)), rfl⟩
      | ok r =>
        rw [hsame, hrec] at hrecord
        rw [hsame, hrec]
        right
        refine ⟨_, _, r, ho, hcut, ?_, rfl, rfl⟩
        rw [hrefused, Bool.eq_false_iff]
        intro h
        obtain ⟨e, he⟩ := hrecord.mpr h
        cases he

theorem writeLockFile_eq (w : World) (fd : Inode) (cut : Cut) :
    ∃ payload, writeLockFile w fd cut = { w with payload } := by
  cases cut with
  | uncommitted => exact ⟨_, rfl⟩
  | committed => exact ⟨_, rfl⟩
  | truncated written => exact ⟨_, rfl⟩

theorem writeLockFile_lease (w : World) (fd : Inode) (cut : Cut) :
    (writeLockFile w fd cut).lease = w.lease := by
  obtain ⟨payload, h⟩ := writeLockFile_eq w fd cut
  rw [h]

/-- The world after the commit still has the lease object with its locks. -/
theorem Opened.held {w u : World} {i : LeaseId} {fd : Inode} (ho : Opened w i fd u)
    (r : LeaseRow) (cut : Cut) :
    ((writeLockFile { u with row := some r } fd cut).lease i).held = true := by
  rw [writeLockFile_lease]
  show (u.lease i).held = true
  rw [ho.lease, Function.update_self]

/-- The locks of a call that ends after the commit are free again, and its row stands. -/
theorem stop_committed {w u : World} {i : LeaseId} {fd : Inode} (ho : Opened w i fd u)
    (r : LeaseRow) (cut : Cut) (ending : Ending) :
    let v := stop (writeLockFile { u with row := some r } fd cut) i fd ending
    v.row = some r ∧
    (∀ q, w.threadLock q (w.lease i).path = false → v.threadLock q (w.lease i).path = false) ∧
    flockBusy v (w.lease i).path = false := by
  have hs := stop_stopped fd ending (ho.held r cut)
  obtain ⟨payload, hwrite⟩ := writeLockFile_eq { u with row := some r } fd cut
  rw [hwrite] at hs ⊢
  have hpath : (u.lease i).path = (w.lease i).path := by rw [ho.lease, Function.update_self]
  have hprocess : (u.lease i).process = (w.lease i).process := by
    rw [ho.lease, Function.update_self]
  generalize stop _ i fd ending = v at hs ⊢
  refine ⟨hs.row, fun q hfree => ?_, ?_⟩
  · have hq : v.threadLock q (u.lease i).path =
        if q = (u.lease i).process then false else u.threadLock q (u.lease i).path :=
      hs.threadLock q
    rw [hpath, hprocess, ho.threadLock] at hq
    rw [hq]
    split
    · rfl
    · exact hfree
  · have hinode : v.inodeAt (w.lease i).path = some fd :=
      (congrFun hs.inodeAt _).trans ho.inodeAt
    have hwin : v.win32 = w.win32 := hs.win32.trans ho.win32
    unfold flockBusy
    rw [hinode, hwin]
    cases hw : w.win32 with
    | true => rfl
    | false =>
      rw [Option.getD_some, hs.flock (ho.flock hw)]
      rfl

/-- The committed row stays held under a token that no lease object ever gets. -/
theorem committed_row_unowned {c : Config} {ls : List Label} {w u : World} {i : LeaseId}
    {fd : Inode} {r : LeaseRow} (hrun : system.run c.world ls = some w) (ho : Opened w i fd u)
    (hnewer : ∀ r₀, w.row = some r₀ → r₀.fencingToken < r.fencingToken) (cut : Cut)
    (ending : Ending) (j : LeaseId) :
    ((stop (writeLockFile { u with row := some r } fd cut) i fd ending).lease j).token ≠
      some r.fencingToken := by
  intro htoken
  have hu := (stop_stopped fd ending (ho.held r cut)).token j _ htoken
  rw [writeLockFile_lease] at hu
  have hw : (w.lease j).token = some r.fencingToken := by
    have hu' : (u.lease j).token = some r.fencingToken := hu
    rw [ho.lease] at hu'
    by_cases hj : j = i
    · subst hj
      simpa only [Function.update_self] using hu'
    · rwa [Function.update_of_ne hj] at hu'
  obtain ⟨r₀, hr₀, hle⟩ := (tokens_distinct_run hrun).le_row j _ (Or.inl hw)
  have hlt := hnewer r₀ hr₀
  omega

/-- A failed acquire leaves no trace exactly when it ends before its row is committed. -/
theorem atomic_on_failure_iff (c : Config) (ls : List Label) (w : World) (i : LeaseId)
    (lockGen : String) (cut : Cut) (ending : Ending) (hrun : system.run c.world ls = some w)
    (hready : ready w i = true) :
    AtomicOnFailure w i lockGen cut ending ↔ cut = .uncommitted ∨ refused w i = true := by
  rcases failedAcquire_cases hready lockGen cut ending with
    ⟨hrefused, hfailed⟩ | ⟨fd, u, ho, hend, hfailed⟩ | ⟨fd, u, r, ho, hcut, hrefused, hrec, hfailed⟩
  · refine iff_of_true ⟨?_, ?_⟩ (Or.inr hrefused)
    · intro process ttl gen wall mono
      rw [hfailed]
    · intro r hr _ _
      rwa [hfailed] at hr
  · have hview := stop_opened_view ho ending
    refine iff_of_true ⟨?_, ?_⟩ hend
    · intro process ttl gen wall mono
      rw [hfailed, nextAcquire_congr hview]
    · intro r hr _ _
      rw [hfailed] at hr
      exact hview.row.symm.trans hr
  · obtain ⟨hheld, -, hnewer⟩ := recordAcquire_ok hrec
    refine iff_of_false (fun hatomic => ?_) (fun h => ?_)
    · have hstop := (stop_committed ho r cut ending).1
      have hbefore := hatomic.row r (by rw [hfailed, hstop]) hheld (fun j => by
        rw [hfailed]
        exact committed_row_unowned hrun ho hnewer cut ending j)
      rw [(withoutCall_view ending ho.threadFree ho.flockFree).1] at hbefore
      exact Nat.lt_irrefl _ (hnewer r hbefore)
    · rcases h with h | h
      · exact hcut h
      · rw [hrefused] at h
        cases h

theorem atomic_on_failure_first_run :
    AtomicOnFailure twoProcesses.world 0 "a" .uncommitted .died ∧
      ready twoProcesses.world 0 = true :=
  ⟨(atomic_on_failure_iff twoProcesses [] twoProcesses.world 0 "a" .uncommitted .died rfl rfl).mpr
    (Or.inl rfl), rfl⟩

/-- The process of a first acquire dies between the commit and the payload: at once the run is
busy, and its next acquire after the heartbeat has expired gets incarnation 2. -/
theorem death_before_payload_leaves_run_busy :
    (nextAcquire (atTime (failedAcquire twoProcesses.world 0 "a" .committed .died) 0 0) 1
      "locks/run.lock" 30 "b").map (·.incarnation) = .error ⟨⟩ ∧
    (nextAcquire (atTime (failedAcquire twoProcesses.world 0 "a" .committed .died) 30 30) 1
      "locks/run.lock" 30 "b").map (·.incarnation) = .ok 2 ∧
    ¬ AtomicOnFailure twoProcesses.world 0 "a" .committed .died := by
  refine ⟨by decide, by decide, fun h => ?_⟩
  have hnext := h.next 1 30 "b" 0 0
  revert hnext
  decide

end Recertia.Lease
