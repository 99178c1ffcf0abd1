import Mathlib.Logic.Function.Basic
import Recertia.Lib.Table
import Recertia.Lib.Transition

/-! The idempotency keys of `control.db`: `reserve`, `complete` and `release`, each one immediate
transaction, and the clients that hold reservations. -/
namespace Recertia.Idempotency

/-- A pending row younger than this belongs to a request that may still be running. -/
def leaseSeconds : Int := 30

/-- At most this many expired rows are deleted by one write. -/
def sweepLimit : ℕ := 500

structure KeyScope where
  tenantId : String
  programId : String
  stepId : String
  key : String
  deriving DecidableEq, Repr

/-- A row is complete exactly when it has a run id. -/
inductive RowState
  | pending
  | complete (runId : String)
  deriving DecidableEq, Repr

/-- A row of `idempotency_keys`. -/
structure Row where
  requestHash : String
  state : RowState
  createdAt : Int
  expiresAt : Int
  deriving DecidableEq, Repr

abbrev Keys := Table KeyScope Row

inductive Outcome
  | reserved | replay | takenOver | inProgress | mismatch
  deriving DecidableEq, Repr

inductive Completion
  | completed | superseded | lost
  deriving DecidableEq, Repr

/-- `lease` is there for `reserved` and `takenOver` only. -/
structure Reservation where
  outcome : Outcome
  runId : Option String := none
  lease : Option Int := none
  deriving DecidableEq, Repr

/-- The deletions of a write at `now`; `chosen` is the order in which the bounded sweep finds the
expired rows. An expired row of `scope` that it does not reach is never honoured. -/
def sweep (now : Int) (chosen : List KeyScope) (keys : Keys) (scope : KeyScope) : Keys :=
  let keys := keys.delete fun k row =>
    decide (row.expiresAt ≤ now) && (chosen.take sweepLimit).contains k
  keys.delete fun k row => decide (k = scope) && decide (row.expiresAt ≤ now)

def reserve (ttl now : Int) (chosen : List KeyScope) (keys : Keys) (scope : KeyScope)
    (requestHash : String) : Keys × Reservation :=
  let keys := sweep now chosen keys scope
  match keys.get? scope with
  | none =>
    (keys.insertOrIgnore scope
        { requestHash, state := .pending, createdAt := now, expiresAt := now + ttl },
      { outcome := .reserved, lease := some now })
  | some row =>
    -- The insert has failed on the primary key.
    if row.requestHash ≠ requestHash then (keys, { outcome := .mismatch })
    else match row.state with
      | .complete runId => (keys, { outcome := .replay, runId := some runId })
      | .pending =>
        if now - row.createdAt < leaseSeconds then (keys, { outcome := .inProgress })
        else
          (keys.update (fun k _ => k = scope) fun row =>
              { row with createdAt := now, expiresAt := now + ttl },
            { outcome := .takenOver, lease := some now })

/-- The condition under which a row is that of a request with this lease. -/
def Row.heldBy (requestHash : String) (lease : Int) (row : Row) : Bool :=
  row.state = .pending && row.requestHash = requestHash && row.createdAt = lease

def complete (keys : Keys) (scope : KeyScope) (requestHash runId : String) (lease : Int) :
    Keys × Completion :=
  let updated := keys.update (fun k row => k = scope && row.heldBy requestHash lease) fun row =>
    { row with state := .complete runId }
  match keys.get? scope with
  | none => (updated, .lost)
  | some row =>
    if row.heldBy requestHash lease then (updated, .completed)
    else if row.requestHash ≠ requestHash then (updated, .lost)
    else match row.state with
      | .complete recorded => (updated, if recorded = runId then .completed else .lost)
      | .pending => (updated, .superseded)

def release (keys : Keys) (scope : KeyScope) (requestHash : String) (lease : Int) : Keys :=
  keys.delete fun k row => k = scope && row.heldBy requestHash lease

abbrev ClientId := ℕ

/-- A reservation that a client was granted. -/
structure Hold where
  scope : KeyScope
  lease : Int
  deriving DecidableEq, Repr

/-- The table, the clock that every process reads, and what each client holds. -/
structure World where
  keys : Keys
  now : Int
  holds : ClientId → Option Hold

/-- A client completes and releases under the lease that it was granted, with any request hash and
any run id; it holds nothing once it has released, finished or died. -/
inductive Label
  | tick (seconds : ℕ)
  | reserve (c : ClientId) (scope : KeyScope) (requestHash : String) (chosen : List KeyScope)
  | complete (c : ClientId) (requestHash runId : String)
  | release (c : ClientId) (requestHash : String)
  | drop (c : ClientId)

def setHold (w : World) (c : ClientId) (hold : Option Hold) : World :=
  { w with holds := Function.update w.holds c hold }

def step (ttl : Int) (w : World) : Label → Option World
  | .tick seconds => some { w with now := w.now + seconds }
  | .reserve c scope requestHash chosen =>
    match w.holds c with
    | some _ => none
    | none =>
      let (keys, reservation) := reserve ttl w.now chosen w.keys scope requestHash
      some (setHold { w with keys } c (reservation.lease.map fun lease => { scope, lease }))
  | .complete c requestHash runId =>
    match w.holds c with
    | none => none
    | some hold =>
      some { w with keys := (complete w.keys hold.scope requestHash runId hold.lease).1 }
  | .release c requestHash =>
    match w.holds c with
    | none => none
    | some hold =>
      some (setHold { w with keys := release w.keys hold.scope requestHash hold.lease } c none)
  | .drop c => some (setHold w c none)

def system (ttl : Int) : Transition.System World Label := ⟨step ttl⟩

/-- No keys and no clients. -/
def start (now : Int) : World := ⟨.empty, now, fun _ => none⟩

/-! What each operation does to the row of a scope. -/

/-- The row of a scope as `reserve` reads it: an expired one is gone. -/
def liveRow (keys : Keys) (now : Int) (scope : KeyScope) : Option Row :=
  (keys.get? scope).filter fun row => decide (now < row.expiresAt)

theorem liveRow_eq_some {keys : Keys} {now : Int} {scope : KeyScope} {row : Row} :
    liveRow keys now scope = some row ↔ keys.get? scope = some row ∧ now < row.expiresAt := by
  simp only [liveRow, Option.filter_eq_some_iff, decide_eq_true_eq]

theorem sweep_self (now : Int) (chosen : List KeyScope) (keys : Keys) (scope : KeyScope) :
    (sweep now chosen keys scope).get? scope = liveRow keys now scope := by
  simp only [sweep, Table.get?_delete, liveRow]
  cases keys.get? scope with
  | none => rfl
  | some row =>
    by_cases hlive : now < row.expiresAt
    · have hnot : ¬ row.expiresAt ≤ now := by omega
      simp [Option.filter, hlive, hnot]
    · have hexpired : row.expiresAt ≤ now := by omega
      by_cases hchosen : scope ∈ chosen.take sweepLimit <;>
        simp [Option.filter, hlive, hexpired, hchosen]

/-- The sweep takes expired rows only. -/
theorem sweep_of_lt {now : Int} {keys : Keys} {scope' : KeyScope} {row : Row}
    (chosen : List KeyScope) (scope : KeyScope) (hrow : keys.get? scope' = some row)
    (hlive : now < row.expiresAt) : (sweep now chosen keys scope).get? scope' = some row := by
  have hnot : ¬ row.expiresAt ≤ now := by omega
  simp [sweep, Table.get?_delete, hrow, hnot]

theorem get?_of_sweep {now : Int} {keys : Keys} {scope scope' : KeyScope} {row : Row}
    {chosen : List KeyScope} (h : (sweep now chosen keys scope).get? scope' = some row) :
    keys.get? scope' = some row := by
  simp only [sweep, Table.get?_delete, Option.filter_eq_some_iff] at h
  exact h.1.1

/-- Everything that `reserve` can do to the row of its scope. -/
inductive ReserveKind (ttl now : Int) (keys : Keys) (scope : KeyScope) (requestHash : String)
    (after : Option Row) (reservation : Reservation) : Prop
  | reserved (gone : liveRow keys now scope = none)
      (next : after = some ⟨requestHash, .pending, now, now + ttl⟩)
      (result : reservation = ⟨.reserved, none, some now⟩)
  | takenOver (row : Row) (live : liveRow keys now scope = some row)
      (hash : row.requestHash = requestHash) (pending : row.state = .pending)
      (late : row.createdAt + leaseSeconds ≤ now)
      (next : after = some { row with createdAt := now, expiresAt := now + ttl })
      (result : reservation = ⟨.takenOver, none, some now⟩)
  | replay (row : Row) (runId : String) (live : liveRow keys now scope = some row)
      (hash : row.requestHash = requestHash) (complete : row.state = .complete runId)
      (next : after = some row) (result : reservation = ⟨.replay, some runId, none⟩)
  | refused (row : Row) (live : liveRow keys now scope = some row) (next : after = some row)
      (notReplay : reservation.outcome ≠ .replay) (lease : reservation.lease = none)

theorem reserve_cases (ttl now : Int) (chosen : List KeyScope) (keys : Keys) (scope : KeyScope)
    (requestHash : String) :
    ReserveKind ttl now keys scope requestHash
      ((reserve ttl now chosen keys scope requestHash).1.get? scope)
      (reserve ttl now chosen keys scope requestHash).2 := by
  have hself := sweep_self now chosen keys scope
  unfold reserve
  generalize sweep now chosen keys scope = rest at hself
  cases hlive : rest.get? scope with
  | none =>
    rw [hlive] at hself
    simp only [hlive]
    refine .reserved hself.symm ?_ rfl
    rw [Table.get?_insertOrIgnore]
    simp [hlive]
  | some row =>
    rw [hlive] at hself
    by_cases hhash : row.requestHash = requestHash
    · cases hstate : row.state with
      | complete runId =>
        simp only [hlive, hhash, hstate, ne_eq, not_true_eq_false, if_false]
        exact .replay row runId hself.symm hhash hstate rfl rfl
      | pending =>
        simp only [hlive, hhash, hstate, ne_eq, not_true_eq_false, if_false]
        by_cases hyoung : now - row.createdAt < leaseSeconds
        · rw [if_pos hyoung]
          exact .refused row hself.symm hlive (by simp) rfl
        · rw [if_neg hyoung]
          refine .takenOver row hself.symm hhash hstate (by omega) ?_ rfl
          rw [Table.get?_update, hlive]
          simp
    · simp only [hlive, ne_eq, hhash, not_false_eq_true, if_true]
      exact .refused row hself.symm rfl (by simp) rfl

/-- The row of another scope stays, unless it is expired. -/
theorem reserve_elsewhere {ttl now : Int} {chosen : List KeyScope} {keys : Keys}
    {scope scope' : KeyScope} {requestHash : String} (hscope : scope' ≠ scope) :
    (reserve ttl now chosen keys scope requestHash).1.get? scope' =
      (sweep now chosen keys scope).get? scope' := by
  unfold reserve
  dsimp only
  split
  · rw [Table.get?_insertOrIgnore]
    simp [hscope]
  · split
    · rfl
    · split
      · rfl
      · split
        · rfl
        · rw [Table.get?_update]
          simp [hscope]

/-- A reservation that is not granted takes expired rows away at most. -/
structure Refuses (now : Int) (keys keys' : Keys) : Prop where
  back : ∀ scope row, keys'.get? scope = some row → keys.get? scope = some row
  keep : ∀ scope row, keys.get? scope = some row → now < row.expiresAt →
    keys'.get? scope = some row

/-- A granted one writes a new lease into its row, which had no live lease before. -/
structure Grants (ttl now : Int) (keys keys' : Keys) (scope : KeyScope) : Prop where
  row : ∃ row, keys'.get? scope = some row ∧ row.state = .pending ∧ row.createdAt = now ∧
    row.expiresAt = now + ttl
  late : ∀ row, keys.get? scope = some row → now < row.expiresAt →
    row.state = .pending ∧ row.createdAt + leaseSeconds ≤ now
  back : ∀ scope' row, scope' ≠ scope → keys'.get? scope' = some row →
    keys.get? scope' = some row
  keep : ∀ scope' row, scope' ≠ scope → keys.get? scope' = some row → now < row.expiresAt →
    keys'.get? scope' = some row

theorem reserve_spec (ttl now : Int) (chosen : List KeyScope) (keys : Keys) (scope : KeyScope)
    (requestHash : String) :
    ((reserve ttl now chosen keys scope requestHash).2.lease = none ∧
      Refuses now keys (reserve ttl now chosen keys scope requestHash).1) ∨
    ((reserve ttl now chosen keys scope requestHash).2.lease = some now ∧
      Grants ttl now keys (reserve ttl now chosen keys scope requestHash).1 scope) := by
  have hkind := reserve_cases ttl now chosen keys scope requestHash
  have hback : ∀ scope' row, scope' ≠ scope →
      (reserve ttl now chosen keys scope requestHash).1.get? scope' = some row →
      keys.get? scope' = some row := fun scope' row hne hrow => by
    rw [reserve_elsewhere hne] at hrow
    exact get?_of_sweep hrow
  have hkeep : ∀ scope' row, scope' ≠ scope → keys.get? scope' = some row →
      now < row.expiresAt →
      (reserve ttl now chosen keys scope requestHash).1.get? scope' = some row :=
    fun scope' row hne hrow hlive => by
      rw [reserve_elsewhere hne]
      exact sweep_of_lt chosen scope hrow hlive
  generalize reserve ttl now chosen keys scope requestHash = result at hkind hback hkeep ⊢
  have hrefuses {row : Row} (hlive : liveRow keys now scope = some row)
      (hnext : result.1.get? scope = some row) : Refuses now keys result.1 := by
    obtain ⟨hrow, -⟩ := liveRow_eq_some.mp hlive
    constructor
    · intro scope' row' hrow'
      by_cases hscope : scope' = scope
      · subst hscope
        rw [hnext] at hrow'
        rwa [← hrow']
      · exact hback scope' row' hscope hrow'
    · intro scope' row' hrow' hlive'
      by_cases hscope : scope' = scope
      · subst hscope
        rw [hrow] at hrow'
        rwa [← hrow']
      · exact hkeep scope' row' hscope hrow' hlive'
  rcases hkind with ⟨hgone, hnext, hresult⟩ | ⟨row, hlive, hhash, hpending, hlate, hnext, hresult⟩ |
    ⟨row, runId, hlive, -, -, hnext, hresult⟩ | ⟨row, hlive, hnext, -, hlease⟩
  · refine Or.inr ⟨by rw [hresult], ⟨_, hnext, rfl, rfl, rfl⟩, fun row hrow hlive => ?_, hback,
      hkeep⟩
    rw [liveRow_eq_some.mpr ⟨hrow, hlive⟩] at hgone
    cases hgone
  · refine Or.inr ⟨by rw [hresult], ⟨_, hnext, hpending, rfl, rfl⟩, fun row' hrow' hlive' => ?_,
      hback, hkeep⟩
    rw [liveRow_eq_some.mpr ⟨hrow', hlive'⟩] at hlive
    cases hlive
    exact ⟨hpending, hlate⟩
  · exact Or.inl ⟨by rw [hresult], hrefuses hlive hnext⟩
  · exact Or.inl ⟨hlease, hrefuses hlive hnext⟩

theorem complete_keys (keys : Keys) (scope : KeyScope) (requestHash runId : String)
    (lease : Int) :
    (complete keys scope requestHash runId lease).1 =
      keys.update (fun k row => k = scope && row.heldBy requestHash lease) fun row =>
        { row with state := .complete runId } := by
  unfold complete
  dsimp only
  split
  · rfl
  · split
    · rfl
    · split
      · rfl
      · split <;> rfl

/-- `complete` writes the row of its scope only, and only where it is held. -/
theorem complete_get? (keys : Keys) (scope : KeyScope) (requestHash runId : String)
    (lease : Int) (scope' : KeyScope) :
    (complete keys scope requestHash runId lease).1.get? scope' =
      (keys.get? scope').map fun row =>
        if scope' = scope ∧ row.heldBy requestHash lease = true then
          { row with state := .complete runId }
        else row := by
  rw [complete_keys, Table.get?_update]
  simp only [Bool.and_eq_true, decide_eq_true_eq]

theorem release_get? (keys : Keys) (scope : KeyScope) (requestHash : String) (lease : Int)
    (scope' : KeyScope) :
    (release keys scope requestHash lease).get? scope' =
      (keys.get? scope').filter fun row =>
        !(decide (scope' = scope) && row.heldBy requestHash lease) := by
  rw [release, Table.get?_delete]

theorem heldBy_iff {row : Row} {requestHash : String} {lease : Int} :
    row.heldBy requestHash lease = true ↔
      row.state = .pending ∧ row.requestHash = requestHash ∧ row.createdAt = lease := by
  simp only [Row.heldBy, Bool.and_eq_true, decide_eq_true_eq, and_assoc]

/-- A completion that succeeds leaves the row complete with its run. -/
theorem complete_completed {keys : Keys} {scope : KeyScope} {requestHash runId : String}
    {lease : Int} (h : (complete keys scope requestHash runId lease).2 = .completed) :
    ∃ row, (complete keys scope requestHash runId lease).1.get? scope = some row ∧
      row.requestHash = requestHash ∧ row.state = .complete runId := by
  rw [complete_get?]
  unfold complete at h
  dsimp only at h
  split at h
  · cases h
  · rename_i row hrow
    simp only [hrow, Option.map_some]
    by_cases hheld : row.heldBy requestHash lease = true
    · refine ⟨{ row with state := .complete runId }, ?_, (heldBy_iff.mp hheld).2.1, rfl⟩
      rw [if_pos ⟨trivial, hheld⟩]
    · rw [if_neg hheld] at h
      split at h
      · cases h
      · rename_i hhash
        rw [not_not] at hhash
        split at h
        · rename_i recorded hstate
          split at h
          · rename_i hsame
            refine ⟨row, ?_, hhash, hsame ▸ hstate⟩
            rw [if_neg (fun hboth => hheld hboth.2)]
          · cases h
        · cases h

end Recertia.Idempotency
