import Recertia.Queue.RowStep
import Mathlib.Logic.Function.Basic

/-! `EmbeddedQueueWorker`: the threads that drain the queue inside the API process, one after the
other, and the calls that start and stop them. Other clients use the same database in between. -/
namespace Recertia.Embedded

open Queue Transition
variable {P : Type*}

/-- `_State` -/
inductive Lifecycle
  | stopped
  | running
  | stopping
  deriving DecidableEq, Repr

/-- Where a thread is. -/
inductive Place (P : Type*)
  | unborn
  /-- at `while not stop.is_set()` -/
  | checking
  | polling
  /-- behind the heartbeat -/
  | claiming
  /-- before `mark_running` -/
  | claimed (claim : Claim P)
  | executing (claim : Claim P)
  /-- behind the loop, before `_exited` -/
  | exiting
  | dead

/-- In its loop: from the start of the thread until `_exited` lets go of `_guard`. The thread itself
lives on for a moment, but is not `_thread` then. -/
def Place.alive : Place P → Bool
  | .unborn | .dead => false
  | _ => true

/-- The item that the thread has in hand. -/
def Place.claim? : Place P → Option (Claim P)
  | .claimed claim | .executing claim => some claim
  | _ => none

def Place.leaving : Place P → Bool
  | .exiting => true
  | _ => false

/-- The thread is behind the check of its event, so that it will claim. -/
def Place.pastCheck : Place P → Bool
  | .polling | .claiming => true
  | _ => false

/-- The worker and its queue. Threads are numbered as `_spawn` makes their events; event 0 is that
of `__init__`. -/
structure EmbeddedQueueWorker (P : Type*) where
  db : Db P
  state : Lifecycle := .stopped
  restart : Bool := false
  /-- `_stop`, the event that was made last -/
  stop : ℕ := 0
  thread : Option ℕ := none
  spawned : ℕ := 1
  /-- the events that are set -/
  isSet : ℕ → Bool := fun _ => false
  place : ℕ → Place P := fun _ => .unborn

/-- The arguments of `register_worker`, of which `capacity` is 1. -/
structure Identity where
  workerId : String := "embedded"
  hostname : String
  pid : Int

/-- Where `_spawn` can raise. -/
inductive SpawnFault
  | register
  | start
  deriving DecidableEq, Repr

/-- How `worker._run` ends. -/
inductive Ran
  | returned (outcome : String)
  | rootBusy
  | raised

inductive Label (P : Type*)
  | ensureStarted (now : Int) (fault : Option SpawnFault)
  | stop
  | check (n : ℕ)
  | heartbeat (n : ℕ) (now : Int)
  | claim (n : ℕ) (cfg : Settings) (now : Int) (pick : Key)
  | markRunning (n : ℕ) (now : Int)
  | settle (n : ℕ) (now : Int) (ran : Ran)
  /-- an exception out of the loop, such as an error of SQLite or an unreadable payload -/
  | raise (n : ℕ)
  | exited (n : ℕ) (now : Int) (fault : Option SpawnFault)
  /-- a call of another client of the queue -/
  | other (r : Request P)

namespace EmbeddedQueueWorker

def setPlace (s : EmbeddedQueueWorker P) (n : ℕ) (place : Place P) : EmbeddedQueueWorker P :=
  { s with place := Function.update s.place n place }

variable (ident : Identity)

/-- `_spawn`, and whether it returns. -/
def spawn (now : Int) (fault : Option SpawnFault) (s : EmbeddedQueueWorker P) :
    EmbeddedQueueWorker P × Bool :=
  let n := s.spawned
  let s := { s with stop := n, spawned := n + 1, restart := false }
  if fault = some .register then (s, false)
  else
    let s := { s with
      db := s.db.registerWorker now ident.workerId 1 ident.hostname ident.pid
      thread := some n, state := .running }
    if fault = some .start then (s, false) else (s.setPlace n .checking, true)

def ensureStarted (now : Int) (fault : Option SpawnFault) (s : EmbeddedQueueWorker P) :
    EmbeddedQueueWorker P :=
  let dead := s.thread.any fun n => !(s.place n).alive
  let s := if dead then { s with state := .stopped } else s
  match s.state with
  | .running => s
  | .stopping => { s with restart := true }
  | .stopped => (s.spawn ident now fault).1

/-- The part of `stop` under `_guard`. -/
def requestStop (s : EmbeddedQueueWorker P) : EmbeddedQueueWorker P :=
  let s := { s with restart := false }
  if s.state = .running then
    { s with state := .stopping, isSet := Function.update s.isSet s.stop true }
  else s

/-- `_exited` of thread `n` -/
def exit (n : ℕ) (now : Int) (fault : Option SpawnFault) (s : EmbeddedQueueWorker P) :
    EmbeddedQueueWorker P :=
  let s := s.setPlace n .dead
  let ended (s : EmbeddedQueueWorker P) :=
    { s with thread := none, state := .stopped, restart := false }
  if s.thread ≠ some n then s
  else if s.state = .stopping ∧ s.restart = true then
    match s.spawn ident now fault with
    | (s, true) => s
    | (s, false) => ended s
  else ended s

theorem terminal_failed : Status.failed.terminal = true := rfl

theorem terminal_cancelled : Status.cancelled.terminal = true := rfl

theorem terminal_succeeded : Status.succeeded.terminal = true := rfl

/-- What `_execute` makes of the end of a run. -/
def settle (now : Int) (claim : Claim P) (ran : Ran) (db : Db P) : Db P × Except QueueError Unit :=
  match ran with
  | .rootBusy => db.requeue now claim 2000000 "root_busy"
  | .raised => db.finish now claim ⟨.failed, terminal_failed⟩ (some "run_failed")
  | .returned outcome =>
    if outcome = "cancelled" then db.finish now claim ⟨.cancelled, terminal_cancelled⟩ none
    else if outcome = "run_busy" then
      db.finish now claim ⟨.failed, terminal_failed⟩ (some "run_busy")
    else if outcome = "workspace_busy" then
      db.finish now claim ⟨.failed, terminal_failed⟩ (some "workspace_busy")
    else if outcome = "failed" then
      db.finish now claim ⟨.failed, terminal_failed⟩ (some "run_failed")
    else db.finish now claim ⟨.succeeded, terminal_succeeded⟩ none

def step (s : EmbeddedQueueWorker P) : Label P → Option (EmbeddedQueueWorker P)
  | .ensureStarted now fault => some (s.ensureStarted ident now fault)
  | .stop => some s.requestStop
  | .check n =>
    match s.place n with
    | .checking => some (s.setPlace n (if s.isSet n then .exiting else .polling))
    | _ => none
  | .heartbeat n now =>
    match s.place n with
    | .polling => some { s.setPlace n .claiming with db := s.db.heartbeatWorker now ident.workerId }
    | _ => none
  | .claim n cfg now pick =>
    match s.place n with
    | .claiming =>
      (s.db.claimOne cfg now ident.workerId pick).map fun result =>
        match result.2 with
        | none => { s.setPlace n .checking with db := result.1 }
        | some claim => { s.setPlace n (.claimed claim) with db := result.1 }
    | _ => none
  | .markRunning n now =>
    match s.place n with
    | .claimed claim =>
      match s.db.markRunning now claim with
      | (db, .ok _) => some { s.setPlace n (.executing claim) with db }
      | (db, .error _) => some { s.setPlace n .exiting with db }
    | _ => none
  | .settle n now ran =>
    match s.place n with
    | .executing claim =>
      match settle now claim ran s.db with
      | (db, .ok _) => some { s.setPlace n .checking with db }
      -- The exception of a claim that is not ours any more ends the loop.
      | (db, .error _) => some { s.setPlace n .exiting with db }
    | _ => none
  | .raise n =>
    match s.place n with
    | .polling | .claiming | .claimed _ | .executing _ => some (s.setPlace n .exiting)
    | _ => none
  | .exited n now fault =>
    match s.place n with
    | .exiting => some (s.exit ident n now fault)
    | _ => none
  | .other r => (s.db.serve r).map fun db => { s with db }

end EmbeddedQueueWorker

def embeddedSystem (P : Type*) (ident : Identity) : System (EmbeddedQueueWorker P) (Label P) where
  step := EmbeddedQueueWorker.step ident

variable {ident : Identity} {s s' : EmbeddedQueueWorker P}

/-! ### The threads -/

/-- A thread that is alive is the worker's thread, and its event is set when it is to stop. -/
structure Inv (s : EmbeddedQueueWorker P) : Prop where
  current : ∀ n, (s.place n).alive = true → s.thread = some n
  event : ∀ n, (s.place n).alive = true →
    s.stop = n ∧ s.state ≠ .stopped ∧ (s.isSet n = true ↔ s.state = .stopping)
  fresh : ∀ n, s.spawned ≤ n → (s.place n).alive = false ∧ s.isSet n = false
  stop_lt : s.stop < s.spawned
  restart : s.restart = true → s.state = .stopping
  thread : s.state ≠ .stopped → s.thread ≠ none

theorem Place.alive_of_claim {place : Place P} (h : place.claim?.isSome = true) :
    place.alive = true := by
  cases place <;> first | rfl | cases h

theorem Place.alive_of_pastCheck {place : Place P} (h : place.pastCheck = true) :
    place.alive = true := by
  cases place <;> first | rfl | cases h

namespace EmbeddedQueueWorker

@[simp] theorem setPlace_self (s : EmbeddedQueueWorker P) (n : ℕ) (place : Place P) :
    (s.setPlace n place).place n = place := Function.update_self ..

theorem setPlace_other (s : EmbeddedQueueWorker P) {m n : ℕ} (place : Place P) (h : m ≠ n) :
    (s.setPlace n place).place m = s.place m := Function.update_of_ne h ..

end EmbeddedQueueWorker

open EmbeddedQueueWorker

theorem inv_init (db : Db P) : Inv ({ db } : EmbeddedQueueWorker P) where
  current n h := by cases h
  event n h := by cases h
  fresh n _ := ⟨rfl, rfl⟩
  stop_lt := Nat.zero_lt_one
  restart h := by cases h
  thread h := absurd rfl h

namespace Inv

/-- No two threads are alive at once. -/
theorem unique (h : Inv s) {m n : ℕ} (hm : (s.place m).alive = true)
    (hn : (s.place n).alive = true) : m = n :=
  Option.some.inj ((h.current m hm).symm.trans (h.current n hn))

/-- A thread goes on. -/
theorem move (h : Inv s) {n : ℕ} (hn : (s.place n).alive = true) (place : Place P) (db : Db P) :
    Inv { s.setPlace n place with db } := by
  have hplace : ∀ m, ((s.setPlace n place).place m).alive = true → (s.place m).alive = true := by
    intro m hm
    by_cases heq : m = n
    · rw [heq]
      exact hn
    · rw [s.setPlace_other place heq] at hm
      exact hm
  refine ⟨fun m hm => h.current m (hplace m hm), fun m hm => h.event m (hplace m hm),
    fun m hm => ⟨?_, (h.fresh m hm).2⟩, h.stop_lt, h.restart, h.thread⟩
  by_contra hm'
  rw [Bool.not_eq_false] at hm'
  have hdead := (h.fresh m hm).1
  rw [hplace m hm'] at hdead
  cases hdead

/-- The database is the queue's own. -/
theorem setDb (h : Inv s) (db : Db P) : Inv { s with db } :=
  ⟨h.current, h.event, h.fresh, h.stop_lt, h.restart, h.thread⟩

/-- Nothing is asked of a worker without a thread. -/
theorem of_dead (hdead : ∀ n, (s.place n).alive = false)
    (hset : ∀ n, s.spawned ≤ n → s.isSet n = false) (hlt : s.stop < s.spawned)
    (hrestart : s.restart = true → s.state = .stopping)
    (hthread : s.state ≠ .stopped → s.thread ≠ none) : Inv s := by
  have hnone : ∀ n, (s.place n).alive ≠ true := by
    intro n hn
    rw [hdead n] at hn
    cases hn
  exact ⟨fun n hn => absurd hn (hnone n), fun n hn => absurd hn (hnone n),
    fun n hn => ⟨hdead n, hset n hn⟩, hlt, hrestart, hthread⟩

/-- `_spawn` is called when no thread is alive. -/
theorem spawn (h : Inv s) (hdead : ∀ n, (s.place n).alive = false) (now : Int)
    (fault : Option SpawnFault) : Inv (s.spawn ident now fault).1 := by
  have hset : ∀ n, s.spawned + 1 ≤ n → s.isSet n = false :=
    fun n hn => (h.fresh n (Nat.le_of_succ_le hn)).2
  unfold EmbeddedQueueWorker.spawn
  dsimp only
  split
  · exact of_dead hdead hset (Nat.lt_succ_self _) (fun h => by cases h) h.thread
  · split
    · exact of_dead hdead hset (Nat.lt_succ_self _) (fun h => by cases h) (fun _ h => by cases h)
    · -- The new thread is the only one.
      have hnew : ∀ n, (Function.update s.place s.spawned .checking n).alive = true →
          n = s.spawned := by
        intro n hn
        by_contra hne
        rw [Function.update_of_ne hne, hdead n] at hn
        cases hn
      refine ⟨fun n hn => ?_, fun n hn => ?_, fun n hn => ⟨?_, hset n hn⟩, Nat.lt_succ_self _,
        (fun h => by cases h), (fun _ h => by cases h)⟩
      · rw [hnew n hn]
        rfl
      · rw [hnew n hn]
        refine ⟨rfl, (fun h => by cases h), ?_⟩
        show s.isSet s.spawned = true ↔ Lifecycle.running = .stopping
        rw [(h.fresh _ (le_refl _)).2]
        exact iff_of_false (fun h => by cases h) (fun h => by cases h)
      · have hne : n ≠ s.spawned := Nat.ne_of_gt hn
        rw [setPlace_other _ _ hne]
        exact hdead n

/-- A new thread, or a mark on the one there is. -/
theorem ensureStarted_cases (ident : Identity) (h : Inv s) (now : Int) (fault : Option SpawnFault) :
    (∀ n, (s.place n).alive = false) ∧ s.ensureStarted ident now fault =
      ({ s with state := .stopped, restart := false }.spawn ident now fault).1 ∨
    (s.state = .running ∧ s.ensureStarted ident now fault = s ∨
      s.state = .stopping ∧ s.ensureStarted ident now fault = { s with restart := true }) ∧
      ∀ n, s.thread = some n → (s.place n).alive = true := by
  unfold EmbeddedQueueWorker.ensureStarted
  dsimp only
  by_cases hcorpse : (s.thread.any fun n => !(s.place n).alive) = true
  · -- The thread never ran, so that no thread is alive.
    rw [if_pos hcorpse]
    refine .inl ⟨fun n => ?_, rfl⟩
    by_contra hn
    rw [Bool.not_eq_false] at hn
    rw [h.current n hn, Option.any_some, hn] at hcorpse
    cases hcorpse
  · rw [if_neg hcorpse]
    have hthread : ∀ n, s.thread = some n → (s.place n).alive = true := by
      intro n hn
      rw [hn, Option.any_some, Bool.not_eq_true, Bool.not_eq_false'] at hcorpse
      exact hcorpse
    split
    · rename_i hstate
      exact .inr ⟨.inl ⟨hstate, rfl⟩, hthread⟩
    · rename_i hstate
      exact .inr ⟨.inr ⟨hstate, rfl⟩, hthread⟩
    · rename_i hstate
      refine .inl ⟨fun n => ?_, ?_⟩
      · by_contra hn
        rw [Bool.not_eq_false] at hn
        exact (h.event n hn).2.1 hstate
      · rw [← hstate]
        rfl

theorem ensureStarted (h : Inv s) (now : Int) (fault : Option SpawnFault) :
    Inv (s.ensureStarted ident now fault) := by
  rcases h.ensureStarted_cases ident now fault with
    ⟨hdead, heq⟩ | ⟨⟨-, heq⟩ | ⟨hstate, heq⟩, -⟩
  · rw [heq]
    have hs : Inv { s with state := .stopped, restart := false } :=
      of_dead hdead (fun n hn => (h.fresh n hn).2) h.stop_lt (fun h => by cases h)
        (fun h => absurd rfl h)
    exact hs.spawn hdead now fault
  · rw [heq]
    exact h
  · rw [heq]
    exact ⟨h.current, h.event, h.fresh, h.stop_lt, fun _ => hstate, h.thread⟩

theorem requestStop (h : Inv s) : Inv s.requestStop := by
  unfold EmbeddedQueueWorker.requestStop
  dsimp only
  split
  · rename_i hrunning
    refine ⟨h.current, fun n hn => ?_, fun n hn => ⟨(h.fresh n hn).1, ?_⟩, h.stop_lt,
      (fun h => by cases h), fun _ => ?_⟩
    · have hstop := (h.event n hn).1
      refine ⟨hstop, (fun h => by cases h), ?_⟩
      show Function.update s.isSet s.stop true n = true ↔ Lifecycle.stopping = .stopping
      rw [← hstop, Function.update_self]
      exact iff_of_true rfl rfl
    · have hne : n ≠ s.stop := Nat.ne_of_gt (Nat.lt_of_lt_of_le h.stop_lt hn)
      show Function.update s.isSet s.stop true n = false
      rw [Function.update_of_ne hne]
      exact (h.fresh n hn).2
    · apply h.thread
      intro hstopped
      rw [hstopped] at hrunning
      cases hrunning
  · exact ⟨h.current, h.event, h.fresh, h.stop_lt, (fun h => by cases h), h.thread⟩

theorem exit (h : Inv s) {n : ℕ} (hn : s.place n = .exiting) (now : Int)
    (fault : Option SpawnFault) : Inv (s.exit ident n now fault) := by
  have halive : (s.place n).alive = true := by rw [hn]; rfl
  have hdead : ∀ m, ((s.setPlace n .dead).place m).alive = false := by
    intro m
    by_cases hm : m = n
    · rw [hm, setPlace_self]
      rfl
    · rw [s.setPlace_other _ hm]
      by_contra hm'
      rw [Bool.not_eq_false] at hm'
      exact hm (h.unique hm' halive)
  have hgone : Inv (s.setPlace n .dead) := h.move halive .dead s.db
  have hended : ∀ t : EmbeddedQueueWorker P, Inv t → (∀ m, (t.place m).alive = false) →
      Inv { t with thread := none, state := .stopped, restart := false } :=
    fun t ht hdead => of_dead hdead (fun m hm => (ht.fresh m hm).2) ht.stop_lt (fun h => by cases h)
      (fun h => absurd rfl h)
  unfold EmbeddedQueueWorker.exit
  dsimp only
  split
  · exact hgone
  · split
    · have hspawn : Inv ((s.setPlace n .dead).spawn ident now fault).1 :=
        hgone.spawn hdead now fault
      split
      · rename_i t heq
        rw [heq] at hspawn
        exact hspawn
      · rename_i t heq
        rw [heq] at hspawn
        refine hended t hspawn ?_
        have hplace : ((s.setPlace n .dead).spawn ident now fault).2 = false →
            ((s.setPlace n .dead).spawn ident now fault).1.place = (s.setPlace n .dead).place := by
          unfold EmbeddedQueueWorker.spawn
          dsimp only
          split
          · exact fun _ => rfl
          · split
            · exact fun _ => rfl
            · intro h
              cases h
        rw [heq] at hplace
        rw [hplace rfl]
        exact hdead
    · exact hended _ hgone hdead

end Inv

/-! ### The items -/

/-- A row in flight that was claimed under this worker's id. -/
def Ours (ident : Identity) (db : Db P) (key : Key) (row : Row P) : Prop :=
  db.runQueue.get? key = some row ∧ row.claimedBy = some ident.workerId ∧ row.status.inFlight = true

/-- A call that does not claim under this worker's id. -/
def foreign (ident : Identity) (r : Request P) : Bool :=
  match r.call with
  | .claim worker _ => worker ≠ ident.workerId
  | _ => true

/-- No other client claims under this worker's id. -/
def Label.foreign (ident : Identity) : Label P → Bool
  | .other r => Embedded.foreign ident r
  | _ => true

/-- A row is one of ours since before a call, under the same token, or the call is our claim. -/
theorem ours_cases {db db' : Db P} {r : Request P} (h : db.serve r = some db') {key : Key}
    {row : Row P} (hours : Ours ident db' key row) :
    (∃ old, Ours ident db key old ∧ old.claimToken = row.claimToken) ∨
    r.call = .claim ident.workerId key ∧
      ∃ old, db.runQueue.get? key = some old ∧ row.claimToken = old.claimToken + 1 := by
  obtain ⟨hget, hby, hflight⟩ := hours
  have hstep := serve_row h key
  rw [hget] at hstep
  generalize hold : db.runQueue.get? key = before at hstep
  cases hstep with
  | keep => exact .inl ⟨row, ⟨hold, hby, hflight⟩, rfl⟩
  | insert _ hstatus =>
    rw [hstatus] at hflight
    cases hflight
  | replace _ _ _ _ hstatus =>
    rw [hstatus] at hflight
    cases hflight
  | claim hcall _ _ htoken _ _ hworker =>
    rw [hworker] at hby
    rw [Option.some.inj hby] at hcall
    exact .inr ⟨hcall, _, rfl, htoken⟩
  | held _ _ _ hflight' htoken _ _ hkept =>
    exact .inl ⟨_, ⟨hold, hkept hflight ▸ hby, hflight'⟩, htoken.symm⟩
  | cancel => exact .inl ⟨_, ⟨hold, hby, hflight⟩, rfl⟩
  | reap =>
    unfold Queue.reap at hflight
    split at hflight <;> cases hflight

/-- Nobody else makes a row one of this worker's, or gives it another token. -/
theorem ours_before {db db' : Db P} {r : Request P} (h : db.serve r = some db')
    (hforeign : foreign ident r = true) {key : Key} {row : Row P} (hours : Ours ident db' key row) :
    ∃ old, Ours ident db key old ∧ old.claimToken = row.claimToken := by
  rcases ours_cases h hours with hbefore | ⟨hcall, -⟩
  · exact hbefore
  · unfold foreign at hforeign
    rw [hcall] at hforeign
    exact absurd rfl (of_decide_eq_true hforeign)

theorem inFlight_of_terminal {status : Status} (h : status.terminal = true) :
    status.inFlight = false := by
  cases status <;> first | rfl | cases h

theorem finish_ends {now : Int} {claim : Claim P} {status : { s : Status // s.terminal = true }}
    {errorCode : Option String} {db : Db P} {row : Row P}
    (hok : (db.finish now claim status errorCode).2 = .ok ())
    (hget : (db.finish now claim status errorCode).1.runQueue.get? claim.key = some row) :
    row.status.inFlight = false := by
  have hend : row.status = status := by
    unfold Db.finish at hok hget
    rw [transition_fst] at hget
    dsimp only at hget
    have hget' := hget
    rw [Table.get?_update] at hget
    unfold Db.transition at hok
    dsimp only at hok
    split at hok
    · rename_i hheld
      unfold Db.rowHolds at hheld
      cases hold : db.runQueue.get? claim.key with
      | none =>
        rw [hold] at hget
        cases hget
      | some old =>
        rw [hold] at hheld hget
        dsimp only at hheld
        rw [Option.map_some, if_pos hheld] at hget
        rw [← Option.some.inj hget]
        rfl
    · split at hok
      · cases hok
      · rename_i current hcurrent
        rw [hget'] at hcurrent
        cases hcurrent
        split at hok
        · rename_i hsame
          exact hsame.1
        · cases hok
      · cases hok
  rw [hend]
  exact inFlight_of_terminal status.2

theorem requeue_ends {now : Int} {claim : Claim P} {delay : Int} {errorCode : String} {db : Db P}
    {row : Row P} (hok : (db.requeue now claim delay errorCode).2 = .ok ())
    (hget : (db.requeue now claim delay errorCode).1.runQueue.get? claim.key = some row) :
    row.status.inFlight = false := by
  rw [requeue_fst] at hget
  dsimp only at hget
  rw [Table.get?_update] at hget
  unfold Db.requeue at hok
  dsimp only at hok
  split at hok
  · rename_i hheld
    unfold Db.rowHolds at hheld
    cases hold : db.runQueue.get? claim.key with
    | none =>
      rw [hold] at hget
      cases hget
    | some old =>
      rw [hold] at hheld hget
      dsimp only at hheld
      rw [Option.map_some, if_pos hheld] at hget
      rw [← Option.some.inj hget]
      rfl
  · cases hok

/-- Every outcome ends the item by a `finish` or a `requeue`. -/
theorem settle_cases (now : Int) (claim : Claim P) (ran : Ran) (db : Db P) :
    (∃ status errorCode, settle now claim ran db = db.finish now claim status errorCode) ∨
    settle now claim ran db = db.requeue now claim 2000000 "root_busy" := by
  unfold settle
  cases ran with
  | rootBusy => exact .inr rfl
  | raised => exact .inl ⟨_, _, rfl⟩
  | returned outcome =>
    left
    dsimp only
    split
    · exact ⟨_, _, rfl⟩
    · split
      · exact ⟨_, _, rfl⟩
      · split
        · exact ⟨_, _, rfl⟩
        · split
          · exact ⟨_, _, rfl⟩
          · exact ⟨_, _, rfl⟩

/-- An item that has been ended is not in flight. -/
theorem settle_ends {now : Int} {claim : Claim P} {ran : Ran} {db db' : Db P} {row : Row P}
    (hok : settle now claim ran db = (db', .ok ()))
    (hget : db'.runQueue.get? claim.key = some row) : row.status.inFlight = false := by
  have hdb : db' = (settle now claim ran db).1 := by rw [hok]
  rw [hdb] at hget
  have hresult : (settle now claim ran db).2 = .ok () := by rw [hok]
  rcases settle_cases now claim ran db with ⟨status, errorCode, h⟩ | h
  · rw [h] at hresult hget
    exact finish_ends hresult hget
  · rw [h] at hresult hget
    exact requeue_ends hresult hget

/-- What the settling of an item does to the rows, another client could do. -/
theorem settle_serve (ident : Identity) (now : Int) (claim : Claim P) (ran : Ran) (db : Db P) :
    ∃ r : Request P, foreign ident r = true ∧ db.serve r = some (settle now claim ran db).1 := by
  rcases settle_cases now claim ran db with ⟨status, errorCode, h⟩ | h
  · rw [h]
    exact ⟨{ now, call := .finish claim status errorCode }, rfl, rfl⟩
  · rw [h]
    exact ⟨{ now, call := .requeue claim 2000000 "root_busy" }, rfl, rfl⟩

/-- How many items were claimed since the last `stop` that no `ensure_started` followed, and the
items that an exception took from a thread. -/
structure History where
  since : Option ℕ := none
  lost : List Key := []

def Label.thread? : Label P → Option ℕ
  | .check n | .heartbeat n _ | .claim n _ _ _ | .markRunning n _ | .settle n _ _ | .raise n
  | .exited n _ _ => some n
  | _ => none

/-- The item that an exception takes from its thread. -/
def drops (s : EmbeddedQueueWorker P) (l : Label P) (s' : EmbeddedQueueWorker P) : List Key :=
  match l.thread? with
  | some n => if (s'.place n).leaving then ((s.place n).claim?.map Claim.key).toList else []
  | none => []

theorem mem_drops {s s' : EmbeddedQueueWorker P} {l : Label P} {n : ℕ} {claim : Claim P}
    (hl : l.thread? = some n) (hclaim : (s.place n).claim? = some claim)
    (hleft : (s'.place n).leaving = true) : claim.key ∈ drops s l s' := by
  unfold drops
  rw [hl]
  dsimp only
  rw [if_pos hleft, hclaim]
  exact List.mem_singleton_self _

def see (s : EmbeddedQueueWorker P) (l : Label P) (s' : EmbeddedQueueWorker P) (h : History) :
    History where
  since :=
    match l with
    | .ensureStarted .. => none
    | .stop => some 0
    | .claim n _ _ _ => if (s'.place n).claim?.isSome then h.since.map Nat.succ else h.since
    | _ => h.since
  lost := drops s l s' ++ h.lost

/-- Everything that a step can do. -/
inductive StepKind (ident : Identity) (s : EmbeddedQueueWorker P) :
    Label P → EmbeddedQueueWorker P → Prop
  | ensureStarted (now : Int) (fault : Option SpawnFault) :
    StepKind ident s (.ensureStarted now fault) (s.ensureStarted ident now fault)
  | stop : StepKind ident s .stop s.requestStop
  /-- a thread goes on and takes no item; one that it has in hand stays, is let go, or is ended -/
  | moved {l : Label P} {n : ℕ} {place : Place P} {db : Db P}
    (thread : l.thread? = some n) (alive : (s.place n).alive = true) (goesOn : place.alive = true)
    (past : place.pastCheck = true → (s.place n).pastCheck = true ∨ s.isSet n = false)
    (serve : db = s.db ∨ ∃ r, foreign ident r = true ∧ s.db.serve r = some db)
    (item : place.claim? = (s.place n).claim? ∨ ∀ claim, (s.place n).claim? = some claim →
      place.leaving = true ∨ ∀ row, ¬ Ours ident db claim.key row)
    (seen : ∀ h, (see s l { s.setPlace n place with db } h).since = h.since) :
    StepKind ident s l { s.setPlace n place with db }
  | claimed {n : ℕ} {cfg : Settings} {now : Int} {pick : Key} {db : Db P} {row : Row P}
    {claim : Claim P} (place : s.place n = .claiming)
    (serve : s.db.serve ⟨cfg, now, .claim ident.workerId pick⟩ = some db)
    (picked : s.db.runQueue.get? pick = some row) (key : claim.key = pick)
    (token : claim.claimToken = row.claimToken + 1) :
    StepKind ident s (.claim n cfg now pick)
      { s.setPlace n (.claimed claim) with db }
  | exited {n : ℕ} {now : Int} {fault : Option SpawnFault} (place : s.place n = .exiting) :
    StepKind ident s (.exited n now fault) (s.exit ident n now fault)
  | other {r : Request P} {db : Db P} (serve : s.db.serve r = some db) :
    StepKind ident s (.other r) { s with db }

/-- The inversion lemma of the worker. -/
theorem step_cases {l : Label P} (hstep : s.step ident l = some s') : StepKind ident s l s' := by
  cases l with
  | ensureStarted now fault =>
    cases hstep
    exact .ensureStarted now fault
  | stop =>
    cases hstep
    exact .stop
  | check n =>
    simp only [EmbeddedQueueWorker.step] at hstep
    split at hstep
    · rename_i hplace
      cases hstep
      refine .moved rfl (by rw [hplace]; rfl) ?_ (fun hpast => .inr ?_) (.inl rfl)
        (.inl ?_) fun _ => rfl
      · split <;> rfl
      · by_contra hset
        rw [Bool.not_eq_false] at hset
        rw [if_pos hset] at hpast
        cases hpast
      · rw [hplace]
        split <;> rfl
    · cases hstep
  | heartbeat n now =>
    simp only [EmbeddedQueueWorker.step] at hstep
    split at hstep
    · rename_i hplace
      cases hstep
      exact .moved rfl (by rw [hplace]; rfl) rfl (fun _ => .inl (by rw [hplace]; rfl))
        (.inr ⟨{ now, call := .heartbeatWorker ident.workerId }, rfl, rfl⟩)
        (.inl (by rw [hplace]; rfl)) fun _ => rfl
    · cases hstep
  | claim n cfg now pick =>
    simp only [EmbeddedQueueWorker.step] at hstep
    split at hstep
    · rename_i hplace
      obtain ⟨result, hresult, hs'⟩ := Option.map_eq_some_iff.mp hstep
      have hserve : s.db.serve ⟨cfg, now, .claim ident.workerId pick⟩ = some result.1 := by
        show (s.db.claimOne cfg now ident.workerId pick).map Prod.fst = _
        rw [hresult]
        rfl
      rcases claimOne_cases hresult with heq | ⟨row, hrow, -, htake, hclaimed⟩
      · rw [heq] at hs'
        cases hs'
        exact .moved rfl (by rw [hplace]; rfl) rfl (fun h => by cases h) (.inl rfl)
          (.inl (by rw [hplace]; rfl)) fun _ => if_neg (by simp [Place.claim?])
      · rw [hclaimed] at hs'
        cases hs'
        exact .claimed hplace hserve hrow rfl rfl
    · cases hstep
  | markRunning n now =>
    simp only [EmbeddedQueueWorker.step] at hstep
    split at hstep
    · rename_i claim hplace
      have hserve : s.db.serve { now, call := .markRunning claim } =
          some (s.db.markRunning now claim).1 := rfl
      split at hstep <;>
      · rename_i heq
        rw [heq] at hserve
        cases hstep
        refine .moved rfl (by rw [hplace]; rfl) rfl (fun h => by cases h)
          (.inr ⟨_, rfl, hserve⟩) ?_ fun _ => rfl
        first
          | exact .inl (by rw [hplace]; rfl)
          | exact .inr fun _ _ => .inl rfl
    · cases hstep
  | settle n now ran =>
    simp only [EmbeddedQueueWorker.step] at hstep
    split at hstep
    · rename_i claim hplace
      obtain ⟨r, hforeign, hserve⟩ := settle_serve ident now claim ran s.db
      split at hstep
      · rename_i db _ heq
        cases hstep
        rw [heq] at hserve
        refine .moved rfl (by rw [hplace]; rfl) rfl (fun h => by cases h)
          (.inr ⟨r, hforeign, hserve⟩) (.inr fun other hother => .inr ?_) fun _ => rfl
        rw [hplace] at hother
        cases hother
        intro row ⟨hget, _, hflight⟩
        rw [settle_ends heq hget] at hflight
        cases hflight
      · rename_i heq
        cases hstep
        rw [heq] at hserve
        exact .moved rfl (by rw [hplace]; rfl) rfl (fun h => by cases h)
          (.inr ⟨r, hforeign, hserve⟩) (.inr fun _ _ => .inl rfl) fun _ => rfl
    · cases hstep
  | raise n =>
    simp only [EmbeddedQueueWorker.step] at hstep
    split at hstep <;> first
      | cases hstep
        refine .moved rfl (by simp only [*]; rfl) rfl (fun h => by cases h) (.inl rfl) ?_
          fun _ => rfl
        first
          | exact .inl (by simp only [*]; rfl)
          | exact .inr fun _ _ => .inl rfl
      | cases hstep
  | exited n now fault =>
    simp only [EmbeddedQueueWorker.step] at hstep
    split at hstep
    · rename_i hplace
      cases hstep
      exact .exited hplace
    · cases hstep
  | other r =>
    obtain ⟨db, hserve, rfl⟩ := Option.map_eq_some_iff.mp hstep
    exact .other hserve

theorem Inv.step (h : Inv s) {l : Label P} (hstep : s.step ident l = some s') : Inv s' := by
  cases step_cases hstep with
  | ensureStarted now fault => exact h.ensureStarted now fault
  | stop => exact h.requestStop
  | moved _ alive _ _ _ _ _ => exact h.move alive _ _
  | claimed place => exact h.move (by rw [place]; rfl) _ _
  | exited place => exact h.exit place _ _
  | other => exact h.setDb _

/-- A row of ours in flight is the item of a thread, under its claim, or was let go by one. -/
def Held (ident : Identity) (s : EmbeddedQueueWorker P) (lost : List Key) : Prop :=
  ∀ key row, Ours ident s.db key row →
    (∃ n claim, (s.place n).claim? = some claim ∧ claim.key = key ∧
      claim.claimToken = row.claimToken) ∨ key ∈ lost

/-- A step that is no claim: each item in hand stays in hand, is let go, or is ended. -/
theorem Held.step {lost lost' : List Key} (hheld : Held ident s lost) (hlost : lost ⊆ lost')
    (hdb : s'.db = s.db ∨ ∃ r, foreign ident r = true ∧ s.db.serve r = some s'.db)
    (hitems : ∀ n claim, (s.place n).claim? = some claim →
      (s'.place n).claim? = some claim ∨ claim.key ∈ lost' ∨
        ∀ row, ¬ Ours ident s'.db claim.key row) :
    Held ident s' lost' := by
  intro key row hours
  have hbefore : ∃ old, Ours ident s.db key old ∧ old.claimToken = row.claimToken := by
    rcases hdb with hsame | ⟨r, hforeign, hserve⟩
    · exact ⟨row, hsame ▸ hours, rfl⟩
    · exact ours_before hserve hforeign hours
  obtain ⟨old, hold, htoken⟩ := hbefore
  rcases hheld key old hold with ⟨n, claim, hclaim, hkey, hsame⟩ | hmem
  · rcases hitems n claim hclaim with hkept | hdropped | hended
    · exact .inl ⟨n, claim, hkept, hkey, hsame.trans htoken⟩
    · exact .inr (hkey ▸ hdropped)
    · exact absurd (hkey ▸ hours) (hended row)
  · exact .inr (hlost hmem)

/-- Nobody has an item in hand while no thread is alive, or one without an item. -/
theorem Inv.no_items (h : Inv s)
    (hidle : (∀ n, (s.place n).alive = false) ∨
      ∃ n, (s.place n).alive = true ∧ (s.place n).claim? = none)
    (m : ℕ) (claim : Claim P) : (s.place m).claim? ≠ some claim := by
  intro hclaim
  have halive : (s.place m).alive = true := Place.alive_of_claim (by rw [hclaim]; rfl)
  rcases hidle with hdead | ⟨n, hn, hnone⟩
  · rw [hdead m] at halive
    cases halive
  · rw [h.unique halive hn, hnone] at hclaim
    cases hclaim

theorem spawn_db (ident : Identity) (now : Int) (fault : Option SpawnFault)
    (s : EmbeddedQueueWorker P) :
    (s.spawn ident now fault).1.db = s.db ∨
    ∃ r, foreign ident r = true ∧ s.db.serve r = some (s.spawn ident now fault).1.db := by
  unfold EmbeddedQueueWorker.spawn
  dsimp only
  split
  · exact .inl rfl
  · refine .inr ⟨⟨{}, now, .registerWorker ident.workerId 1 ident.hostname ident.pid⟩, rfl, ?_⟩
    split <;> rfl

theorem exit_db (n : ℕ) (now : Int) (fault : Option SpawnFault) (s : EmbeddedQueueWorker P) :
    (s.exit ident n now fault).db = s.db ∨
    ∃ r, foreign ident r = true ∧ s.db.serve r = some (s.exit ident n now fault).db := by
  unfold EmbeddedQueueWorker.exit
  dsimp only
  split
  · exact .inl rfl
  · split
    · have hspawn := spawn_db ident now fault (s.setPlace n .dead)
      split <;>
      · rename_i t heq
        rw [heq] at hspawn
        exact hspawn
    · exact .inl rfl

theorem held_step {lost : List Key} (h : Inv s) (hheld : Held ident s lost) {l : Label P}
    (hforeign : l.foreign ident = true) (hstep : s.step ident l = some s') : Held ident s' (drops s l s' ++ lost) := by
  have hmore : lost ⊆ drops s l s' ++ lost := List.subset_append_right _ _
  cases step_cases hstep with
  | ensureStarted now fault =>
    rcases h.ensureStarted_cases ident now fault with
      ⟨hdead, heq⟩ | ⟨⟨-, heq⟩ | ⟨-, heq⟩, -⟩
    · rw [heq]
      apply hheld.step hmore
        (spawn_db ident now fault { s with state := .stopped, restart := false })
      exact fun n claim hclaim => absurd hclaim (h.no_items (.inl hdead) n claim)
    · rw [heq]
      exact hheld.step hmore (.inl rfl) fun n claim hclaim => .inl hclaim
    · rw [heq]
      exact hheld.step hmore (.inl rfl) fun n claim hclaim => .inl hclaim
  | stop =>
    refine hheld.step hmore (.inl ?_) fun n claim hclaim => .inl ?_
    · unfold requestStop
      dsimp only
      split <;> rfl
    · unfold requestStop
      dsimp only
      split <;> exact hclaim
  | @moved _ n place db thread alive _ _ serve item _ =>
    refine hheld.step hmore serve fun m claim hclaim => ?_
    have hmn : m = n := h.unique (Place.alive_of_claim (by rw [hclaim]; rfl)) alive
    subst hmn
    have hself : ((s.setPlace m place).place m) = place := s.setPlace_self m place
    rcases item with hsame | hitem
    · exact .inl ((congrArg Place.claim? hself).trans (hsame.trans hclaim))
    · rcases hitem claim hclaim with hleft | hended
      · have hleft' : ((s.setPlace m place).place m).leaving = true := by rw [hself]; exact hleft
        exact .inr (.inl (List.mem_append_left _ (mem_drops thread hclaim hleft')))
      · exact .inr (.inr hended)
  | @claimed n _ _ pick _ _ claim place serve picked key token =>
    intro found new hours
    rcases ours_cases serve hours with ⟨old, hold, htoken⟩ | ⟨hcall, old, hold, htoken⟩
    · rcases hheld found old hold with ⟨m, other, hclaim, -⟩ | hmem
      · have hidle := h.no_items (.inr ⟨n, by rw [place]; rfl, by rw [place]; rfl⟩) m other
        exact absurd hclaim hidle
      · exact .inr (hmore hmem)
    · -- The row that was picked is under the claim that came back.
      have hpick : pick = found := by
        injection hcall
      rw [← hpick, picked] at hold
      refine .inl ⟨n, claim, by rw [setPlace_self]; rfl, key.trans hpick, ?_⟩
      rw [htoken, ← Option.some.inj hold, token]
  | @exited n now fault place =>
    refine hheld.step hmore (exit_db n now fault s) fun m claim hclaim => ?_
    exact absurd hclaim (h.no_items (.inr ⟨n, by rw [place]; rfl, by rw [place]; rfl⟩) m claim)
  | other serve =>
    exact hheld.step hmore (.inr ⟨_, hforeign, serve⟩) fun n claim hclaim => .inl hclaim

/-! ### Stops -/

/-- The items that are claimed behind a `stop`. -/
def Bounded (s : EmbeddedQueueWorker P) (since : Option ℕ) : Prop :=
  ∀ k, since = some k → s.state ≠ .running ∧ s.restart = false ∧
    (k = 0 ∨ k = 1 ∧ ∀ n, (s.place n).pastCheck = false)

theorem Bounded.keep {since : Option ℕ} (h : Bounded s since) (hstate : s'.state = s.state)
    (hrestart : s'.restart = s.restart)
    (hplace : ∀ n, (s'.place n).pastCheck = true → ∃ m, (s.place m).pastCheck = true) :
    Bounded s' since := by
  intro k hk
  obtain ⟨hrunning, hno, hcount⟩ := h k hk
  refine ⟨hstate ▸ hrunning, hrestart ▸ hno, ?_⟩
  rcases hcount with hzero | ⟨hone, hpast⟩
  · exact .inl hzero
  · refine .inr ⟨hone, fun n => ?_⟩
    by_contra hn
    rw [Bool.not_eq_false] at hn
    obtain ⟨m, hm⟩ := hplace n hn
    rw [hpast m] at hm
    cases hm

/-- A thread that moves to a place where it will not claim. -/
theorem Bounded.move {since : Option ℕ} (h : Bounded s since) {n : ℕ} {place : Place P}
    (hpast : place.pastCheck = true → (s.place n).pastCheck = true) (db : Db P) :
    Bounded { s.setPlace n place with db } since := by
  have hplace : ∀ m, ((s.setPlace n place).place m).pastCheck = true →
      ∃ m, (s.place m).pastCheck = true := by
    intro m hm
    by_cases heq : m = n
    · rw [heq, setPlace_self] at hm
      exact ⟨n, hpast hm⟩
    · rw [s.setPlace_other _ heq] at hm
      exact ⟨m, hm⟩
  exact h.keep rfl rfl hplace

theorem bounded_step {since : Option ℕ} (h : Inv s) (hbounded : Bounded s since) {l : Label P}
    (hstep : s.step ident l = some s') {hist : History} (hsince : hist.since = since) :
    Bounded s' (see s l s' hist).since := by
  cases step_cases hstep with
  | ensureStarted now fault =>
    intro k hk
    cases hk
  | stop =>
    intro k hk
    cases hk
    unfold requestStop
    dsimp only
    split
    · exact ⟨(fun h => by cases h), rfl, .inl rfl⟩
    · rename_i hstate
      exact ⟨hstate, rfl, .inl rfl⟩
  | @moved _ n place db _ alive _ past _ _ seen =>
    rw [seen hist, hsince]
    intro k hk
    apply hbounded.move _ db k hk
    intro hpast
    rcases past hpast with hbefore | hset
    · exact hbefore
    · -- The event is set, so the thread leaves.
      have hevent := h.event n alive
      have hstopping : s.state = .stopping := by
        cases hstate : s.state with
        | stopped => exact absurd hstate hevent.2.1
        | running => exact absurd hstate (hbounded k hk).1
        | stopping => rfl
      rw [hevent.2.2.mpr hstopping] at hset
      cases hset
  | @claimed n cfg now pick db _ claim place =>
    have hmore : (see s (.claim n cfg now pick)
        { s.setPlace n (.claimed claim) with db } hist).since =
        hist.since.map Nat.succ := if_pos (by simp [Place.claim?])
    rw [hmore, hsince]
    intro k hk
    obtain ⟨k₀, hk₀, rfl⟩ := Option.map_eq_some_iff.mp hk
    obtain ⟨hrunning, hno, hcount⟩ := hbounded k₀ hk₀
    rcases hcount with rfl | ⟨-, hpast⟩
    · refine ⟨hrunning, hno, .inr ⟨rfl, fun m => ?_⟩⟩
      show ((s.setPlace n (.claimed claim)).place m).pastCheck = false
      by_cases hm : m = n
      · rw [hm, setPlace_self]
        rfl
      · rw [s.setPlace_other _ hm]
        by_contra hpast
        rw [Bool.not_eq_false] at hpast
        exact hm (h.unique (Place.alive_of_pastCheck hpast) (by rw [place]; rfl))
    · have hthis := hpast n
      rw [place] at hthis
      cases hthis
  | @exited n now fault place =>
    show Bounded _ hist.since
    rw [hsince]
    have hgone : Bounded (s.setPlace n .dead) since :=
      hbounded.move (fun h => by cases h) s.db
    intro k hk
    obtain ⟨hrunning, hno, hcount⟩ := hgone k hk
    unfold EmbeddedQueueWorker.exit
    dsimp only
    split
    · exact ⟨hrunning, hno, hcount⟩
    · rw [if_neg (fun h => by rw [h.2] at hno; cases hno)]
      exact ⟨(fun h => by cases h), rfl, hcount⟩
  | other =>
    show Bounded _ hist.since
    rw [hsince]
    exact hbounded.keep rfl rfl fun n hn => ⟨n, hn⟩

/-! ### Whole runs -/

def monitored (P : Type*) (ident : Identity) : System (EmbeddedQueueWorker P × History) (Label P) :=
  (embeddedSystem P ident).monitor see

/-- A worker that is stopped between its heartbeat and its claim. -/
def handOver : List (Label Unit) :=
  [.other { now := 0, call := .enqueue ⟨"acme", "r1", "run", (), 0, 3, none, none⟩ false },
    .other { now := 0, call := .enqueue ⟨"acme", "r2", "run", (), 0, 3, none, none⟩ false },
    .ensureStarted 1 none, .check 1, .heartbeat 1 1, .stop, .claim 1 {} 2 ⟨"acme", "r1", "run"⟩,
    .markRunning 1 2]

def demoIdentity : Identity := { hostname := "localhost", pid := 7 }

/-- Whatever is started, stopped, raised and done by others in between, one thread at most is alive,
and a row in flight under the worker's id is the one item that it has in hand, or one that an
exception took from a thread; given that the id is the worker's alone. -/
theorem one_item_in_hand {db : Db P} (hdb : ∀ key row, ¬ Ours ident db key row)
    {ls : List (Label P)} (hforeign : ∀ l ∈ ls, l.foreign ident = true) {h : History}
    (hrun : (monitored P ident).run ({ db }, {}) ls = some (s, h)) :
    (∀ m n, (s.place m).alive = true → (s.place n).alive = true → m = n) ∧
    (s.thread = none → ∀ n, (s.place n).alive = false) ∧
    ∀ key row, s.db.runQueue.get? key = some row → row.claimedBy = some ident.workerId →
      row.status.inFlight = true → key ∉ h.lost →
      ∃ n claim, (s.place n).claim? = some claim ∧ claim.key = key ∧
        claim.claimToken = row.claimToken := by
  obtain ⟨hinv, hheld⟩ : Inv s ∧ Held ident s h.lost := by
    apply System.run_invariant_along (T := monitored P ident)
      (I := fun m => Inv m.1 ∧ Held ident m.1 m.2.lost) _ ⟨inv_init db, _⟩
      (System.along_of_labels _ hforeign) hrun
    · intro m l m' hm hstep hl
      obtain ⟨hworker, hseen⟩ := System.monitor_step.mp hstep
      rw [hseen]
      exact ⟨hm.1.step hworker, held_step hm.1 hm.2 hl hworker⟩
    · exact fun key row hours => absurd hours (hdb key row)
  refine ⟨fun m n hm hn => hinv.unique hm hn, fun hnone n => ?_,
    fun key row hget hby hflight hkept => ?_⟩
  · by_contra hn
    rw [Bool.not_eq_false] at hn
    rw [hinv.current n hn] at hnone
    cases hnone
  · rcases hheld key row ⟨hget, hby, hflight⟩ with hitem | hlost
    · exact hitem
    · exact absurd hlost hkept

theorem one_item_in_hand_handOver : ∃ s h,
    (monitored Unit demoIdentity).run ({ db := Db.migrated Unit }, {}) handOver = some (s, h) ∧
      h.lost = [] ∧ ∃ n claim, (s.place n).claim? = some claim ∧
        claim.key = ⟨"acme", "r1", "run"⟩ := by
  have hrun : ((monitored Unit demoIdentity).run ({ db := Db.migrated Unit }, {}) handOver).map
      (fun m => (m.2.lost, (m.1.db.runQueue.get? ⟨"acme", "r1", "run"⟩).map
        fun row => (row.claimedBy, row.status.inFlight))) =
      some ([], some (some "embedded", true)) := by decide +kernel
  obtain ⟨⟨s, h⟩, hm, hseen⟩ := Option.map_eq_some_iff.mp hrun
  obtain ⟨hlost, hrow⟩ := Prod.mk.inj hseen
  obtain ⟨row, hget, hrow⟩ := Option.map_eq_some_iff.mp hrow
  obtain ⟨hby, hflight⟩ := Prod.mk.inj hrow
  have hnone : ∀ key row, ¬ Ours demoIdentity (Db.migrated Unit) key row := by
    intro key row hours
    cases hours.1
  obtain ⟨n, claim, hclaim, hkey, -⟩ := (one_item_in_hand hnone (by decide) hm).2.2
    ⟨"acme", "r1", "run"⟩ row hget hby hflight (by
      have hlost' : h.lost = [] := hlost
      rw [hlost']
      exact List.not_mem_nil)
  exact ⟨s, h, hm, hlost, n, claim, hclaim, hkey⟩

/-- From a `stop` to the next `ensure_started` at most one item is claimed, by a thread that was
behind its check; afterwards no thread is. -/
theorem stop_bounds_claims {db : Db P} {ls : List (Label P)} {h : History}
    (hrun : (monitored P ident).run ({ db }, {}) ls = some (s, h)) {k : ℕ} (hk : h.since = some k) :
    k ≤ 1 ∧ (k = 1 → ∀ n, (s.place n).pastCheck = false) := by
  obtain ⟨-, hbounded⟩ : Inv s ∧ Bounded s h.since := by
    apply System.run_invariant (T := monitored P ident)
      (I := fun m => Inv m.1 ∧ Bounded m.1 m.2.since) _ _ hrun
    · intro m l m' hm hstep
      obtain ⟨hworker, hseen⟩ := System.monitor_step.mp hstep
      rw [hseen]
      exact ⟨hm.1.step hworker, bounded_step hm.1 hm.2 hworker rfl⟩
    · exact ⟨inv_init db, fun k hk => by cases hk⟩
  obtain ⟨-, -, hcount⟩ := hbounded k hk
  rcases hcount with rfl | ⟨rfl, hpast⟩
  · exact ⟨Nat.zero_le 1, fun h => by cases h⟩
  · exact ⟨le_refl 1, fun _ => hpast⟩

theorem stop_bounds_claims_handOver : ∃ s h,
    (monitored Unit demoIdentity).run ({ db := Db.migrated Unit }, {}) handOver = some (s, h) ∧
      h.since = some 1 ∧ ∀ n, (s.place n).pastCheck = false := by
  have hrun : ((monitored Unit demoIdentity).run ({ db := Db.migrated Unit }, {}) handOver).map
      (fun m => m.2.since) = some (some 1) := by decide +kernel
  obtain ⟨⟨s, h⟩, hm, hsince⟩ := Option.map_eq_some_iff.mp hrun
  exact ⟨s, h, hm, hsince, (stop_bounds_claims hm hsince).2 rfl⟩

end Recertia.Embedded
