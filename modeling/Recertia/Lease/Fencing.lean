import Recertia.Lease.Ownership

/-! `CheckpointStore.save` and `OperationLedger.run_once` calls next to the lease
objects of one run, all on one lease database. Every transaction is cut at the
points where another connection can run: the first check, the `exists()` test with
`ATTACH`, `BEGIN IMMEDIATE`, the fence inside it and the commit. -/
namespace Recertia.Fencing
open Transition Recertia.Lease

abbrev StoreId := Nat
abbrev CallId := Nat

/-- The connection of a checkpoint store or operation ledger. `ownFile`: its file is
the lease database. `attached`: `attach_lease_schema` ran on it. `lock`: the call that
is inside `with self._lock`. -/
structure Store where
  ownFile : Bool
  attached : Bool := false
  lock : Option CallId := none
  deriving DecidableEq, Repr

def Store.seesLeaseDb (st : Store) : Bool := st.ownFile || st.attached

inductive CallKind
  | save
  | runOnce
  deriving DecidableEq, Repr

/-- The guarded transactions: `run_once` first claims its operation, and both kinds
end with the one that records the checkpoint row or the result. -/
inductive Stage
  | claim
  | record
  deriving DecidableEq, Repr

inductive CallPhase
  | called
  | ready (s : Stage)
  | prepared (s : Stage)
  | began (s : Stage)
  | fenced (s : Stage)
  | body
  | done
  | failed
  deriving DecidableEq, Repr

structure Call where
  kind : CallKind
  store : StoreId
  fencingToken : Option Nat
  phase : CallPhase := .called
  deriving DecidableEq, Repr

structure Runtime where
  world : World
  fileExists : Bool
  tableExists : Bool
  store : StoreId → Store
  call : CallId → Call
  /-- the call whose `BEGIN IMMEDIATE` holds the lease database's write lock -/
  writer : Option CallId
  /-- tokens committed by `_record_acquire`, newest first -/
  issued : List Nat
  /-- tokens `acquire` has returned -/
  returned : List Nat

/-- What a claim transaction finds in the operations row. -/
inductive ClaimOutcome
  | claimed
  | stored
  | wait
  deriving DecidableEq, Repr

inductive Label
  | lease (l : Lease.Label)
  | createLeaseDb (table : Bool)
  | enter (c : CallId)
  | prepare (c : CallId)
  | begin (c : CallId)
  | check (c : CallId)
  | commit (c : CallId) (o : ClaimOutcome)
  | fnReturn (c : CallId)
  | abort (c : CallId)
  deriving DecidableEq, Repr

def setPhase (w : Runtime) (c : CallId) (p : CallPhase) : Runtime :=
  { w with call := Function.update w.call c { w.call c with phase := p } }

def setStore (w : Runtime) (s : StoreId) (st : Store) : Runtime :=
  { w with store := Function.update w.store s st }

def storeOf (w : Runtime) (c : CallId) : Store :=
  w.store (w.call c).store

/-- `run_leases` as an own connection to the lease database finds it. -/
def leaseTable (w : Runtime) : Option (Option LeaseRow) :=
  if w.fileExists && w.tableExists then some w.world.row else none

/-- `run_leases` as `_leases_schema` finds it on the store's connection. -/
def storeTable (w : Runtime) (st : Store) : Option (Option LeaseRow) :=
  if st.seesLeaseDb && w.tableExists then some w.world.row else none

/-- The table the fence inside the transaction reads. `OperationLedger._require_fence`
passes its connection only while the lease database exists. -/
def fenceTable (w : Runtime) (c : CallId) : Option (Option LeaseRow) :=
  match (w.call c).kind with
  | .save => storeTable w (storeOf w c)
  | .runOnce => if w.fileExists then storeTable w (storeOf w c) else none

/-- Call `c` takes the thread lock of its store, and attaches the lease database when
that is another, existing file. -/
def attachLeaseSchema (w : Runtime) (c : CallId) : Runtime :=
  let st := storeOf w c
  setStore w (w.call c).store
    { st with attached := st.attached || (w.fileExists && !st.ownFile), lock := some c }

/-- Call `c` ends its transaction, by `COMMIT` or rollback, and leaves the thread lock. -/
def leave (w : Runtime) (c : CallId) (p : CallPhase) : Runtime :=
  let st := storeOf w c
  let w := setStore w (w.call c).store { st with lock := if st.lock = some c then none else st.lock }
  setPhase { w with writer := if w.writer = some c then none else w.writer } c p

/-- `require_lease_token` in call `c`: a `LeaseLost` ends the call. -/
def require (w : Runtime) (c : CallId) (table : Option (Option LeaseRow)) (next : CallPhase) :
    Runtime :=
  let token := (w.call c).fencingToken
  match requireLeaseToken table token (missingRowFor token) with
  | .ok () => setPhase w c next
  | .error _ => leave w c .failed

/-- The lease methods that open the lease database to write. -/
def writesLeaseDb : Lease.Label → Bool
  | .acquireRecord .. | .heartbeat .. | .release _ => true
  | _ => false

/-- The lease methods that run `_ensure_leases_table`. -/
def ensuresTable : Lease.Label → Bool
  | .acquireRecord .. | .release _ => true
  | _ => false

/-- The token that a lease step has just committed. -/
def issuedBy (w' : World) : Lease.Label → List Nat
  | .acquireRecord i _ =>
    match (w'.lease i).phase with
    | .recorded _ token _ _ => [token]
    | _ => []
  | _ => []

/-- The token that `acquire` has just returned. -/
def returnedBy (w' : World) : Lease.Label → List Nat
  | .acquireFinish i => (w'.lease i).token.toList
  | _ => []

def step (w : Runtime) : Label → Option Runtime
  | .lease l =>
    if writesLeaseDb l && w.writer.isSome then none
    else
      (Lease.step w.world l).map fun w' =>
        { w with
          world := w'
          fileExists := w.fileExists || ensuresTable l
          tableExists := w.tableExists || ensuresTable l
          issued := issuedBy w' l ++ w.issued
          returned := returnedBy w' l ++ w.returned }
  | .createLeaseDb table =>
    -- another run's lease, or any connection that opens the file
    if w.writer.isSome then none
    else some { w with fileExists := true, tableExists := w.tableExists || table }
  | .enter c =>
    match (w.call c).phase, (w.call c).kind with
    | .called, .save =>
      if (storeOf w c).lock.isSome then none
      else
        let w := setStore w (w.call c).store { storeOf w c with lock := some c }
        some (require w c (leaseTable w) (.ready .record))
    | .called, .runOnce => some (setPhase w c (.ready .claim))
    | _, _ => none
  | .prepare c =>
    match (w.call c).phase with
    | .ready s =>
      -- `save` has held the lock since its first check
      if (storeOf w c).lock = none ∨ (storeOf w c).lock = some c then
        some (setPhase (attachLeaseSchema w c) c (.prepared s))
      else none
    | _ => none
  | .begin c =>
    match (w.call c).phase with
    | .prepared s =>
      -- `BEGIN IMMEDIATE` takes the write lock of every attached database
      if (storeOf w c).seesLeaseDb then
        if w.writer.isSome then none else some (setPhase { w with writer := some c } c (.began s))
      else some (setPhase w c (.began s))
    | _ => none
  | .check c =>
    match (w.call c).phase with
    | .began s => some (require w c (fenceTable w c) (.fenced s))
    | _ => none
  | .commit c o =>
    match (w.call c).phase with
    | .fenced .claim =>
      some (leave w c (match o with
        | .claimed => .body
        | .stored => .done
        | .wait => .ready .claim))
    | .fenced .record => some (leave w c .done)
    | _ => none
  | .fnReturn c =>
    match (w.call c).phase with
    | .body => some (setPhase w c (.ready .record))
    | _ => none
  | .abort c =>
    match (w.call c).phase with
    | .done | .failed => none
    | _ => some (leave w c .failed)

def system : System Runtime Label := ⟨step⟩

/-- The lease database as earlier runs of the program left it, the stores that are
open on it and the calls still to be made. -/
structure Config where
  lease : Lease.Config
  fileExists : Bool
  tableExists : Bool
  ownFile : StoreId → Bool
  kind : CallId → CallKind
  store : CallId → StoreId
  fencingToken : CallId → Option Nat

def Config.runtime (c : Config) : Runtime where
  world := c.lease.world
  fileExists := c.fileExists || c.lease.row.isSome
  tableExists := c.tableExists || c.lease.row.isSome
  store := fun s => { ownFile := c.ownFile s }
  call := fun i => { kind := c.kind i, store := c.store i, fencingToken := c.fencingToken i }
  writer := none
  issued := (c.lease.row.map (·.fencingToken)).toList
  returned := []

end Recertia.Fencing
