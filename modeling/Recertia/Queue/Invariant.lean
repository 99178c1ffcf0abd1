import Recertia.Queue.RowStep

/-! The invariants of the run queue, over every sequence of calls. -/
namespace Recertia.Queue
open Transition
variable {P : Type*}

/-- `max_in_flight` as a number of rows. A negative limit admits none, and without a row of
limits no row of the tenant is picked. -/
def Db.maxInFlight (db : Db P) (tenant : String) : ℕ :=
  match db.tenantLimits.get? tenant with
  | some limits => limits.maxInFlight.toNat
  | none => 0

/-- The call is an orphan reconciliation that puts the row of `key` back into the queue. -/
def returned (before : Db P) (r : Request P) (after : Db P) (key : Key) : Bool :=
  match r.call, before.runQueue.get? key, after.runQueue.get? key with
  | .reconcileOrphans _, some old, some new => old.status.inFlight && new.status = .queued
  | _, _, _ => false

/-- Counts for each row its returns since it was last enqueued. -/
def countReturns (before : Db P) (r : Request P) (after : Db P) (returns : Key → ℕ) : Key → ℕ :=
  fun key =>
    if before.enqueues r key then 0
    else if returned before r after key then returns key + 1
    else returns key

/-- No row ever loses its token or goes back to a smaller one. -/
def TokensGrow (db : Db P) : Prop :=
  ∀ ls later, (queueSystem P).run db ls = some later → ∀ key row,
    db.runQueue.get? key = some row →
    ∃ row', later.runQueue.get? key = some row' ∧ row.claimToken ≤ row'.claimToken

/-- A call that presents another token than the row's changes no row. -/
def StaleClaimsIgnored (db : Db P) : Prop :=
  ∀ r after claim, db.serve r = some after → r.call.presents = some claim →
    (∀ row, db.runQueue.get? claim.key = some row → row.claimToken ≠ claim.claimToken) →
    ∀ key, after.runQueue.get? key = db.runQueue.get? key

/-- Only `enqueue` with `replace_terminal` takes a row out of its terminal status. -/
def TerminalKept (db : Db P) : Prop :=
  ∀ r after, db.serve r = some after → ∀ key row, db.runQueue.get? key = some row →
    row.status.terminal = true →
    ∃ row', after.runQueue.get? key = some row' ∧
      (row'.status = row.status ∨ ∃ item, r.call = .enqueue item true ∧ item.key = key)

/-- Where a tenant's rows in flight are within its limit, as in a new database, they stay there
while the limit is not lowered. -/
def InFlightBounded (db : Db P) : Prop :=
  ∀ tenant ls later, (queueSystem P).run db ls = some later →
    (queueSystem P).Along (fun before _ after =>
      before.maxInFlight tenant ≤ after.maxInFlight tenant) db ls →
    db.inFlight tenant ≤ db.maxInFlight tenant →
    later.inFlight tenant ≤ later.maxInFlight tenant

/-- A row has been returned fewer than `max_attempts` times, and never where `max_attempts` is
not positive. -/
def ReturnsBounded (db : Db P) (returns : Key → ℕ) : Prop :=
  ∀ key row, db.runQueue.get? key = some row →
    returns key = 0 ∨ (returns key : Int) < row.maxAttempts

/-! Tokens, stale claims and terminal rows -/

theorem presents_not_reconcile {call : Call P} {claim : Claim P}
    (h : call.presents = some claim) (alive : Int → Bool) : call ≠ .reconcileOrphans alive := by
  rintro rfl
  cases h

theorem RowStep.token_le {db : Db P} {r : Request P} {key : Key} {old : Row P}
    {new : Option (Row P)} (h : RowStep db r key (some old) new) :
    ∃ row', new = some row' ∧ old.claimToken ≤ row'.claimToken := by
  cases h with
  | keep => exact ⟨old, rfl, Int.le_refl _⟩
  | replace _ _ _ _ _ htoken => exact ⟨_, rfl, Int.le_of_eq htoken.symm⟩
  | claim _ _ _ htoken => exact ⟨_, rfl, by omega⟩
  | held _ _ _ _ htoken => exact ⟨_, rfl, Int.le_of_eq htoken.symm⟩
  | cancel => exact ⟨_, rfl, Int.le_refl _⟩
  | reap =>
    refine ⟨_, rfl, ?_⟩
    unfold Queue.reap
    split <;> exact Int.le_refl _

theorem tokensGrow (db : Db P) : TokensGrow db := by
  intro ls
  induction ls generalizing db with
  | nil =>
    intro later hrun key row hrow
    cases hrun
    exact ⟨row, hrow, Int.le_refl _⟩
  | cons r ls ih =>
    intro later hrun key row hrow
    obtain ⟨next, hstep, hrest⟩ := System.run_cons.mp hrun
    have hfirst := serve_row hstep key
    rw [hrow] at hfirst
    obtain ⟨mid, hmid, hle⟩ := hfirst.token_le
    obtain ⟨last, hlast, hle'⟩ := ih next later hrest key mid hmid
    exact ⟨last, hlast, Int.le_trans hle hle'⟩

theorem staleClaimsIgnored (db : Db P) : StaleClaimsIgnored db := by
  intro r after claim hstep hpresents hstale key
  have hrow := serve_row hstep key
  generalize hold : db.runQueue.get? key = old at hrow
  generalize hnew : after.runQueue.get? key = new at hrow
  cases hrow with
  | keep => rfl
  | insert henq =>
    have hnot : db.enqueues r key = false := enqueues_eq_false (presents_not_enqueue hpresents) key
    rw [hnot] at henq
    cases henq
  | replace hcall => simp [Call.presents, hcall] at hpresents
  | claim hcall => simp [Call.presents, hcall] at hpresents
  | held hcall hkey hheld =>
    rw [hpresents] at hcall
    cases hcall
    exact absurd hheld (hstale _ (hkey ▸ hold))
  | cancel hcall => simp [Call.presents, hcall] at hpresents
  | reap hcall => simp [Call.presents, hcall] at hpresents

theorem terminalKept (db : Db P) : TerminalKept db := by
  intro r after hstep key row hrow hterminal
  have hstep := serve_row hstep key
  rw [hrow] at hstep
  generalize after.runQueue.get? key = new at hstep
  cases hstep with
  | keep => exact ⟨row, rfl, Or.inl rfl⟩
  | replace hcall hkey => exact ⟨_, rfl, Or.inr ⟨_, hcall, hkey.symm⟩⟩
  | claim _ hclaimable =>
    have hqueued : row.status = .queued := by
      simp only [Db.claimable, Bool.and_eq_true, decide_eq_true_eq] at hclaimable
      exact hclaimable.1.1
    rw [hqueued] at hterminal
    cases hterminal
  | held _ _ _ hflight =>
    rw [terminal_of_inFlight hflight] at hterminal
    cases hterminal
  | cancel => exact ⟨_, rfl, Or.inl rfl⟩
  | reap _ hflight =>
    rw [terminal_of_inFlight hflight] at hterminal
    cases hterminal

/-! Rows in flight -/

theorem claimable_iff {db : Db P} {now : Int} {key : Key} {row : Row P} :
    db.claimable now key row = true ↔ row.status = .queued ∧ row.notBefore ≤ now ∧
      (∃ sched, db.tenantSched.get? key.tenant = some sched) ∧
      ∃ limits, db.tenantLimits.get? key.tenant = some limits ∧
        (db.inFlight key.tenant : Int) < limits.maxInFlight := by
  unfold Db.claimable
  cases db.tenantSched.get? key.tenant <;> cases db.tenantLimits.get? key.tenant <;>
    simp [and_assoc]

/-- A row that comes into flight has been claimed. -/
theorem RowStep.claimed_of_inFlight {db : Db P} {r : Request P} {key : Key}
    {old : Option (Row P)} {new : Row P} (h : RowStep db r key old (some new))
    (hnew : new.status.inFlight = true)
    (hold : ∀ row, old = some row → row.status.inFlight = false) :
    ∃ worker row, r.call = .claim worker key ∧ old = some row ∧
      db.claimable r.now key row = true := by
  cases h with
  | keep =>
    rw [hold new rfl] at hnew
    cases hnew
  | insert _ hstatus =>
    rw [hstatus] at hnew
    cases hnew
  | replace _ _ _ _ hstatus =>
    rw [hstatus] at hnew
    cases hnew
  | claim hcall hclaimable => exact ⟨_, _, hcall, rfl, hclaimable⟩
  | held _ _ _ hflight =>
    rw [hold _ rfl] at hflight
    cases hflight
  | cancel =>
    have hsame := hold _ rfl
    rw [hsame] at hnew
    cases hnew
  | reap _ hflight =>
    rw [hold _ rfl] at hflight
    cases hflight

/-- One more row of a tenant comes into flight where there is room for it. -/
theorem serve_inFlight {db after : Db P} {r : Request P} (hstep : db.serve r = some after)
    (tenant : String) :
    after.inFlight tenant ≤ db.inFlight tenant ∨
    after.inFlight tenant ≤ db.inFlight tenant + 1 ∧
      db.inFlight tenant < db.maxInFlight tenant := by
  -- A row of the tenant that comes into flight is the one that a claim has picked.
  have hnew : ∀ key row', after.runQueue.get? key = some row' →
      isInFlightOf tenant key row' = true →
      (∃ worker row, r.call = .claim worker key ∧ key.tenant = tenant ∧
        db.runQueue.get? key = some row ∧ db.claimable r.now key row = true) ∨
      ∃ row, db.runQueue.get? key = some row ∧ isInFlightOf tenant key row = true := by
    intro key row' hrow' hflight
    obtain ⟨htenant, hflight⟩ := Bool.and_eq_true_iff.mp hflight
    by_cases hbefore : ∃ row, db.runQueue.get? key = some row ∧ row.status.inFlight = true
    · obtain ⟨row, hrow, hrowflight⟩ := hbefore
      exact Or.inr ⟨row, hrow, Bool.and_eq_true_iff.mpr ⟨htenant, hrowflight⟩⟩
    · have hrowstep := serve_row hstep key
      rw [hrow'] at hrowstep
      obtain ⟨worker, row, hcall, hrow, hclaimable⟩ := hrowstep.claimed_of_inFlight hflight
        fun row hrow => by
          by_contra hne
          exact hbefore ⟨row, hrow, by simpa using hne⟩
      exact Or.inl ⟨worker, row, hcall, of_decide_eq_true htenant, hrow, hclaimable⟩
  by_cases hpick : ∃ worker pick row, r.call = .claim worker pick ∧ pick.tenant = tenant ∧
      db.runQueue.get? pick = some row ∧ db.claimable r.now pick row = true
  · obtain ⟨worker, pick, row, hcall, rfl, hrow, hclaimable⟩ := hpick
    refine Or.inr ⟨Table.count_le [pick] ?_, ?_⟩
    · intro key row' hrow' hflight
      rcases hnew key row' hrow' hflight with ⟨worker', row, hcall', -⟩ | hbefore
      · rw [hcall] at hcall'
        cases hcall'
        exact Or.inl List.mem_cons_self
      · exact Or.inr hbefore
    · obtain ⟨-, -, -, limits, hlimits, hroom⟩ := claimable_iff.mp hclaimable
      rw [Db.maxInFlight, hlimits]
      show db.inFlight pick.tenant < limits.maxInFlight.toNat
      omega
  · refine Or.inl (Table.count_le [] ?_)
    intro key row' hrow' hflight
    rcases hnew key row' hrow' hflight with ⟨worker, row, hcall, htenant, hrow, hclaim⟩ | hbefore
    · exact absurd ⟨worker, key, row, hcall, htenant, hrow, hclaim⟩ hpick
    · exact Or.inr hbefore

theorem inFlightBounded (db : Db P) : InFlightBounded db := by
  intro tenant ls later hrun hkept hbound
  refine System.run_invariant_along (I := fun db => db.inFlight tenant ≤ db.maxInFlight tenant)
    ?_ hbound hkept hrun
  intro before r after hbound hstep hkept
  rcases serve_inFlight hstep tenant with hle | ⟨hle, hroom⟩
  · omega
  · omega

/-! Returns -/

/-- The attempts of a row are its returns. -/
def Counted (returns : ℕ) (row : Row P) : Prop :=
  row.attempt = returns ∧ (returns = 0 ∨ (returns : Int) < row.maxAttempts)

theorem returned_eq_false {before after : Db P} {r : Request P} {key : Key}
    (h : ∀ alive, r.call ≠ .reconcileOrphans alive) : returned before r after key = false := by
  unfold returned
  split
  · rename_i hcall _ _
    exact absurd hcall (h _)
  · rfl

theorem counted_step {db after : Db P} {r : Request P} {returns : Key → ℕ} {key : Key}
    (hstep : db.serve r = some after)
    (hold : ∀ row, db.runQueue.get? key = some row → Counted (returns key) row) :
    ∀ row, after.runQueue.get? key = some row →
      Counted (countReturns db r after returns key) row := by
  intro row hrow
  have hrowstep := serve_row hstep key
  generalize hbefore : db.runQueue.get? key = old at hrowstep hold
  rw [hrow] at hrowstep
  have hsame : db.enqueues r key = false → returned db r after key = false →
      countReturns db r after returns key = returns key := by
    intro henq hret
    simp [countReturns, henq, hret]
  have hreset : db.enqueues r key = true → countReturns db r after returns key = 0 := by
    intro henq
    simp [countReturns, henq]
  cases hrowstep with
  | keep _ henq =>
    have hret : returned db r after key = false := by
      unfold returned
      split
      · rename_i before _ _ hget hget'
        rw [hbefore] at hget
        rw [hrow] at hget'
        cases hget
        cases hget'
        cases row.status <;> rfl
      · rfl
    rw [hsame henq hret]
    exact hold row rfl
  | insert henq _ hattempt =>
    rw [hreset henq]
    exact ⟨hattempt, Or.inl rfl⟩
  | replace _ _ henq _ _ _ hattempt =>
    rw [hreset henq]
    exact ⟨hattempt, Or.inl rfl⟩
  | claim hcall _ _ _ hattempt hmax =>
    rw [hsame (enqueues_eq_false (by simp [hcall]) key) (returned_eq_false (by simp [hcall])),
      Counted, hattempt, hmax]
    exact hold _ rfl
  | held hcall _ _ _ _ hattempt hmax =>
    rw [hsame (enqueues_eq_false (presents_not_enqueue hcall) key)
      (returned_eq_false (presents_not_reconcile hcall)), Counted, hattempt, hmax]
    exact hold _ rfl
  | @cancel _ _ _ old hcall =>
    rw [hsame (enqueues_eq_false (by simp [hcall]) key) (returned_eq_false (by simp [hcall]))]
    have hcounted : Counted (returns key) old := hold old rfl
    exact hcounted
  | @reap alive old hcall hflight pid =>
    obtain ⟨hattempt, hbound⟩ := hold old rfl
    have henq : db.enqueues r key = false := enqueues_eq_false (by simp [hcall]) key
    by_cases hlast : old.maxAttempts ≤ (old.attempt + 1 : ℕ)
    · -- The last attempt is spent: the row dies and keeps its count.
      have hdead : Queue.reap r.now ⟨key, old.attempt, old.maxAttempts, pid⟩ old =
          { old with
            status := .dead, errorCode := some "lease_expired", finishedAt := some r.now } :=
        if_pos hlast
      have hret : returned db r after key = false := by
        simp [returned, hcall, hbefore, hrow, hdead]
      rw [hsame henq hret, hdead]
      exact ⟨hattempt, hbound⟩
    · have hback : Queue.reap r.now ⟨key, old.attempt, old.maxAttempts, pid⟩ old =
          { old with
            status := .queued, attempt := old.attempt + 1, claimedBy := none
            notBefore := r.now + min (2 ^ (old.attempt + 1)) 60 * 1000000
            heartbeatAt := none } :=
        if_neg hlast
      have hcount : countReturns db r after returns key = returns key + 1 := by
        simp [countReturns, henq, returned, hcall, hbefore, hrow, hback, hflight]
      rw [hcount, hback]
      refine ⟨?_, Or.inr ?_⟩
      · show old.attempt + 1 = returns key + 1
        omega
      · show ((returns key + 1 : ℕ) : Int) < old.maxAttempts
        omega

theorem returnsBounded {ls : List (Request P)} {db : Db P} {returns : Key → ℕ}
    (hrun : ((queueSystem P).monitor countReturns).run (Db.migrated P, fun _ => 0) ls =
      some (db, returns)) : ReturnsBounded db returns := by
  have hinv : ∀ key row, db.runQueue.get? key = some row → Counted (returns key) row := by
    refine System.run_invariant
      (I := fun s => ∀ key row, s.1.runQueue.get? key = some row → Counted (s.2 key) row)
      ?_ ?_ hrun
    · intro s r t hs hstep key row hrow
      obtain ⟨hserve, hcount⟩ := System.monitor_step.mp hstep
      rw [hcount]
      exact counted_step hserve (hs key) row hrow
    · intro key row hrow
      cases hrow
  intro key row hrow
  exact (hinv key row hrow).2

/-- In every database that calls lead to, tokens grow, stale claims are ignored, terminal rows
stay, no tenant has more rows in flight than its limit and no row is returned too often. -/
theorem run_queue_invariant {ls : List (Request P)} {db : Db P} {returns : Key → ℕ}
    (hrun : ((queueSystem P).monitor countReturns).run (Db.migrated P, fun _ => 0) ls =
      some (db, returns)) :
    TokensGrow db ∧ StaleClaimsIgnored db ∧ TerminalKept db ∧ InFlightBounded db ∧
      ReturnsBounded db returns :=
  ⟨tokensGrow db, staleClaimsIgnored db, terminalKept db, inFlightBounded db,
    returnsBounded hrun⟩

/-- An item is claimed by a worker that never registers, is returned and claimed again. -/
def orphanedOnce : List (Request Unit) :=
  let key : Key := ⟨"t1", "r1", "run"⟩
  [⟨{}, 0, .enqueue ⟨"t1", "r1", "run", (), 0, 3, none, none⟩ false⟩,
   ⟨{}, 1, .claim "ghost" key⟩,
   ⟨{}, 2, .reconcileOrphans fun _ => true⟩,
   ⟨{}, 9000000, .claim "live" key⟩]

theorem run_queue_invariant_orphaned_once :
    ∃ db returns, ((queueSystem Unit).monitor countReturns).run (Db.migrated Unit, fun _ => 0)
        orphanedOnce = some (db, returns) ∧
      returns ⟨"t1", "r1", "run"⟩ = 1 ∧ db.inFlight "t1" = 1 ∧
      TokensGrow db ∧ StaleClaimsIgnored db ∧ TerminalKept db ∧ InFlightBounded db ∧
      ReturnsBounded db returns := by
  have hends : (((queueSystem Unit).monitor countReturns).run (Db.migrated Unit, fun _ => 0)
      orphanedOnce).map (fun s => (s.2 ⟨"t1", "r1", "run"⟩, s.1.inFlight "t1")) = some (1, 1) := by
    decide +kernel
  obtain ⟨⟨db, returns⟩, hrun, hcounts⟩ := Option.map_eq_some_iff.mp hends
  obtain ⟨hreturns, hflight⟩ := Prod.mk.inj hcounts
  exact ⟨db, returns, hrun, hreturns, hflight, run_queue_invariant hrun⟩

end Recertia.Queue
