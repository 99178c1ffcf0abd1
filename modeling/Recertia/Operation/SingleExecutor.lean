import Recertia.Operation.RunOnce

/-! One executor for an operation key at a time, and what a returned value is worth. -/
namespace Recertia.Operation
open Transition
variable {V : Type*}

/-- Past its claim and not yet finished. -/
def Phase.inFlight : Phase V → Bool
  | .executing | .publishing _ | .cleaning => true
  | _ => false

/-- No `fn` starts while another one executes in a live thread. -/
def StartsAlone (w w' : World V) : Prop :=
  ∀ c d, (w.call c).phase ≠ .executing → (w'.call c).phase = .executing → d ≠ c →
    (w.call d).phase = .executing → w.isAlive (w.call d).thread = false

/-- The row holds every value that a call has returned from its own `fn`. -/
def ResultsDurable (w : World V) : Prop :=
  ∀ c v, (w.call c).phase = .returned v → w.row = some (.result v)

def RunOnceSafe (w : World V) (ls : List (Label V)) : Prop :=
  system.Along (fun w _ w' => StartsAlone w w' ∧ ResultsDurable w') w ls

/-- The safety valve fires only once no call of its ledger is in flight, and a pending
row is reclaimed only while every call in flight goes through the same ledger object. -/
def NoTakeover (w : World V) (l : Label V) (_ : World V) : Prop :=
  match l with
  | .wake c => (w.call c).waitDeadline ≤ w.monotonic →
      ∀ d, (w.call d).phase.inFlight = true → (w.call d).ledger ≠ (w.call c).ledger
  | .poll c _ => w.row = some .pending → liveWaitEvent w (w.call c).ledger = false →
      ∀ d, (w.call d).phase.inFlight = true → (w.call d).ledger = (w.call c).ledger
  | _ => True

structure Inv (w : World V) : Prop where
  alive : ∀ c, (w.call c).phase.isRunning = true → w.isAlive (w.call c).thread = true
  claim : ∀ c, (w.call c).phase.inFlight = true →
    w.liveClaims (w.call c).ledger = some ⟨(w.call c).thread⟩
  pending : ∀ c, (w.call c).phase.inFlight = true → w.row = some .pending
  single : ∀ c d, (w.call c).phase.inFlight = true → (w.call d).phase.inFlight = true → c = d
  durable : ResultsDurable w

theorem inv_init (c : Config V) : Inv c.world where
  alive _ h := by cases h
  claim _ h := by cases h
  pending _ h := by cases h
  single _ _ h := by cases h
  durable _ _ h := by cases h

theorem Phase.isRunning_of_inFlight {p : Phase V} (h : p.inFlight = true) : p.isRunning = true := by
  cases p <;> first | rfl | cases h

/-- Call `c` is replaced by `call`, on the same ledger and thread. -/
theorem update_call {f : CallId → Call V} {c : CallId} {call : Call V}
    (hledger : call.ledger = (f c).ledger) (hthread : call.thread = (f c).thread) (d : CallId) :
    (Function.update f c call d).ledger = (f d).ledger ∧
      (Function.update f c call d).thread = (f d).thread ∧
      (Function.update f c call d).phase = if d = c then call.phase else (f d).phase := by
  by_cases h : d = c
  · subst h
    simp [hledger, hthread]
  · simp [h]

theorem setPhase_call (w : World V) (c d : CallId) (p : Phase V) :
    ((setPhase w c p).call d).ledger = (w.call d).ledger ∧
      ((setPhase w c p).call d).thread = (w.call d).thread ∧
      ((setPhase w c p).call d).phase = if d = c then p else (w.call d).phase :=
  @update_call _ w.call c { w.call c with phase := p } rfl rfl d

/-- A call moves on without touching the row or the claims. -/
theorem inv_update {w : World V} {c : CallId} {call : Call V} (hi : Inv w)
    (hledger : call.ledger = (w.call c).ledger) (hthread : call.thread = (w.call c).thread)
    (halive : w.isAlive (w.call c).thread = true)
    (hp : call.phase.inFlight = true → (w.call c).phase.inFlight = true)
    (hr : ∀ v, call.phase ≠ .returned v) :
    Inv { w with call := Function.update w.call c call } := by
  have hcall := update_call hledger hthread
  have hback : ∀ d, (Function.update w.call c call d).phase.inFlight = true →
      (w.call d).phase.inFlight = true := by
    intro d hd
    rw [(hcall d).2.2] at hd
    split at hd
    · rename_i hdc
      exact hdc ▸ hp hd
    · exact hd
  refine ⟨fun d hd => ?_, fun d hd => ?_, fun d hd => hi.pending d (hback d hd),
    fun d e hd he => hi.single d e (hback d hd) (hback e he), fun d v hd => ?_⟩
  · dsimp only at hd ⊢
    rw [(hcall d).2.1]
    rw [(hcall d).2.2] at hd
    split at hd
    · rename_i hdc
      exact hdc ▸ halive
    · exact hi.alive d hd
  · dsimp only at hd ⊢
    rw [(hcall d).1, (hcall d).2.1]
    exact hi.claim d (hback d hd)
  · dsimp only at hd
    rw [(hcall d).2.2] at hd
    split at hd
    · exact absurd hd (hr v)
    · exact hi.durable d v hd

theorem inv_setPhase {w : World V} {c : CallId} {p : Phase V} (hi : Inv w)
    (halive : w.isAlive (w.call c).thread = true)
    (hp : p.inFlight = true → (w.call c).phase.inFlight = true) (hr : ∀ v, p ≠ .returned v) :
    Inv (setPhase w c p) :=
  inv_update hi rfl rfl halive hp hr

/-- The claim of a pending row, when nothing is in flight and nothing has returned. -/
theorem inv_claim {w : World V} {c : CallId} (hi : Inv w) (hrow : w.row = some .pending)
    (halive : w.isAlive (w.call c).thread = true)
    (hidle : ∀ d, (w.call d).phase.inFlight = false) :
    Inv (setPhase (installClaim w c) c .executing) := by
  have hcall : ∀ d, ((setPhase (installClaim w c) c .executing).call d).phase.inFlight = true →
      d = c := by
    intro d hd
    by_contra hne
    rw [(setPhase_call _ c d _).2.2, if_neg hne] at hd
    exact absurd (hidle d) (by rw [show (w.call d).phase.inFlight = true from hd]; decide)
  refine ⟨fun d hd => ?_, fun d hd => ?_, fun d _ => hrow, fun d e hd he => ?_, fun d v hd => ?_⟩
  · rw [(setPhase_call _ c d _).2.1]
    rw [(setPhase_call _ c d _).2.2] at hd
    split at hd
    · rename_i hdc
      exact hdc ▸ halive
    · exact hi.alive d hd
  · rw [hcall d hd]
    simp [installClaim, setPhase]
  · rw [hcall d hd, hcall e he]
  · rw [(setPhase_call _ c d _).2.2] at hd
    split at hd
    · cases hd
    · exact hi.durable d v hd

/-- Whoever is in flight keeps a pending row live for its own ledger. -/
theorem live_of_inFlight {w : World V} {d : CallId} (hi : Inv w)
    (hd : (w.call d).phase.inFlight = true) : liveWaitEvent w (w.call d).ledger = true := by
  simp only [liveWaitEvent, hi.claim d hd]
  exact hi.alive d (Phase.isRunning_of_inFlight hd)

/-- A step that puts nothing into execution starts nothing. -/
theorem starts_alone_of_kept {w w' : World V}
    (h : ∀ c, (w'.call c).phase = .executing → (w.call c).phase = .executing) :
    StartsAlone w w' := fun c _ hc hc' => absurd (h c hc') hc

theorem starts_alone_update {w w' : World V} {c : CallId} {call : Call V}
    (hcall : w'.call = Function.update w.call c call) (hp : call.phase ≠ .executing) :
    StartsAlone w w' := by
  refine starts_alone_of_kept fun d hd => ?_
  rw [hcall] at hd
  by_cases hdc : d = c
  · rw [hdc, Function.update_self] at hd
    exact absurd hd hp
  · rwa [Function.update_of_ne hdc] at hd

/-- A running call goes on to a phase in which it neither executes nor has returned. -/
theorem goes_on {w : World V} {c : CallId} {p q : Phase V} (hi : Inv w)
    (hphase : (w.call c).phase = q) (hrunning : q.isRunning = true)
    (hflight : p.inFlight = true → q.inFlight = true) (hexecuting : p ≠ .executing)
    (hreturned : ∀ v, p ≠ .returned v) :
    Inv (setPhase w c p) ∧ StartsAlone w (setPhase w c p) := by
  subst hphase
  exact ⟨inv_setPhase hi (hi.alive c hrunning) hflight hreturned,
    starts_alone_update rfl hexecuting⟩

theorem inv_poll {w : World V} {c : CallId} (hi : Inv w) (hphase : (w.call c).phase = .looping)
    (ht : NoTakeover w (.poll c true) w) :
    Inv (poll w c) ∧ StartsAlone w (poll w c) := by
  have halive : w.isAlive (w.call c).thread = true := hi.alive c (by rw [hphase]; rfl)
  have halone : ∀ w' : World V, (∀ d, (w.call d).phase.inFlight = false) → StartsAlone w w' := by
    intro w' hidle _ d _ _ _ hd
    have := hidle d
    rw [hd] at this
    cases this
  unfold poll
  dsimp only
  split
  · rename_i v _
    exact goes_on hi hphase rfl (fun h => by cases h) (fun h => by cases h) (fun _ h => by cases h)
  · rename_i hrow
    split
    · exact goes_on hi hphase rfl (fun h => by cases h) (fun h => by cases h)
        (fun _ h => by cases h)
    · rename_i hlive
      -- an owner in flight would be live, in this very ledger
      have hidle : ∀ d, (w.call d).phase.inFlight = false := by
        intro d
        by_contra hd
        have hd' : (w.call d).phase.inFlight = true := by simpa using hd
        have hledger := ht hrow (by simpa using hlive) d hd'
        exact hlive (hledger ▸ live_of_inFlight hi hd')
      exact ⟨inv_claim hi hrow halive hidle, halone _ hidle⟩
  · rename_i hrow
    have hidle : ∀ d, (w.call d).phase.inFlight = false := by
      intro d
      by_contra hd
      have := hi.pending d (by simpa using hd)
      rw [hrow] at this
      cases this
    have hnew : Inv { w with row := some .pending } :=
      ⟨hi.alive, hi.claim, fun _ _ => rfl, hi.single, fun d v hd => by
        have := hi.durable d v hd
        rw [hrow] at this
        cases this⟩
    exact ⟨inv_claim hnew rfl halive hidle, halone _ hidle⟩

/-- The claim of ledger `k` goes, when no other call of that ledger is in flight. -/
theorem inv_release {w : World V} {k : LedgerId} (hi : Inv w)
    (h : ∀ d, (w.call d).phase.inFlight = true → (w.call d).ledger ≠ k) :
    Inv (releaseClaim w k) where
  alive := hi.alive
  claim d hd := by
    simp only [releaseClaim]
    rw [Function.update_of_ne (h d hd)]
    exact hi.claim d hd
  pending := hi.pending
  single := hi.single
  durable := hi.durable

/-- The call in flight ends: it leaves the row as `row` and its ledger without a claim. -/
theorem inv_finish {w : World V} {c : CallId} {row : Option (Cell V)} {p : Phase V} (hi : Inv w)
    (hc : (w.call c).phase.inFlight = true) (hp : p.inFlight = false)
    (hrow : ∀ v, p = .returned v → row = some (.result v)) :
    Inv (setPhase (releaseClaim { w with row } (w.call c).ledger) c p) := by
  have hidle : ∀ d, ((setPhase (releaseClaim { w with row } (w.call c).ledger) c p).call d).phase.inFlight
      = false := by
    intro d
    rw [(setPhase_call _ c d p).2.2]
    split
    · exact hp
    · rename_i hne
      by_contra hd
      exact hne (hi.single d c (by simpa [releaseClaim] using hd) hc)
  have hnone : ∀ d, ((setPhase (releaseClaim { w with row } (w.call c).ledger) c p).call d).phase.inFlight
      ≠ true := fun d => by rw [hidle d]; decide
  refine ⟨fun d hd => ?_, fun d hd => absurd hd (hnone d), fun d hd => absurd hd (hnone d),
    fun d _ hd => absurd hd (hnone d), fun d v hd => ?_⟩
  · rw [(setPhase_call _ c d p).2.1]
    rw [(setPhase_call _ c d p).2.2] at hd
    split at hd
    · rename_i hdc
      exact hdc ▸ hi.alive c (Phase.isRunning_of_inFlight hc)
    · exact hi.alive d hd
  · rw [(setPhase_call _ c d p).2.2] at hd
    split at hd
    · exact hrow v hd
    · -- nothing had returned while the row was pending
      have hres := hi.durable d v hd
      rw [hi.pending c hc] at hres
      cases hres

theorem inv_threadDies {w : World V} (t : ThreadId) (hi : Inv w) : Inv (threadDies w t) := by
  have hkeep : ∀ d, ((threadDies w t).call d).phase.isRunning = true →
      (threadDies w t).call d = w.call d ∧ (w.call d).thread ≠ t := by
    intro d hd
    simp only [threadDies] at hd ⊢
    split at hd
    · cases hd
    · rename_i hne
      exact ⟨if_neg hne, fun ht => hne ⟨ht, hd⟩⟩
  have hflight : ∀ d, ((threadDies w t).call d).phase.inFlight = true →
      (threadDies w t).call d = w.call d := fun d hd =>
    (hkeep d (Phase.isRunning_of_inFlight hd)).1
  refine ⟨fun d hd => ?_, fun d hd => ?_, fun d hd => ?_, fun d e hd he => ?_, fun d v hd => ?_⟩
  · obtain ⟨hcall, hne⟩ := hkeep d hd
    rw [hcall] at hd ⊢
    simp only [threadDies, Function.update_of_ne hne]
    exact hi.alive d hd
  · have hcall := hflight d hd
    rw [hcall] at hd ⊢
    exact hi.claim d hd
  · rw [hflight d hd] at hd
    exact hi.pending d hd
  · rw [hflight d hd] at hd
    rw [hflight e he] at he
    exact hi.single d e hd he
  · simp only [threadDies] at hd
    split at hd
    · cases hd
    · exact hi.durable d v hd

theorem inv_step {w w' : World V} {l : Label V} (hi : Inv w) (h : step w l = some w')
    (ht : NoTakeover w l w') : Inv w' ∧ StartsAlone w w' := by
  cases l with
  | enter c =>
    simp only [step] at h
    split at h
    · simp only [Option.ite_none_right_eq_some, Option.some.injEq] at h
      obtain ⟨hal, rfl⟩ := h
      exact ⟨inv_update hi rfl rfl hal (fun h => by cases h) (fun _ h => by cases h),
        starts_alone_update rfl (fun h => by cases h)⟩
    · cases h
  | poll c fenceOk =>
    simp only [step] at h
    split at h
    · rename_i hphase
      cases fenceOk with
      | true =>
        cases h
        exact inv_poll hi hphase ht
      | false =>
        cases h
        exact goes_on hi hphase rfl (fun h => by cases h) (fun h => by cases h)
          (fun _ h => by cases h)
    · cases h
  | wake c =>
    simp only [step] at h
    split at h
    · rename_i hphase
      cases h
      unfold wake
      dsimp only
      split
      · rename_i hdeadline
        have halive : w.isAlive (w.call c).thread = true := hi.alive c (by rw [hphase]; rfl)
        exact ⟨inv_update (inv_release hi (ht hdeadline)) rfl rfl halive
          (fun h => by cases h) (fun _ h => by cases h),
          starts_alone_update rfl (fun h => by cases h)⟩
      · exact goes_on hi hphase rfl (fun h => by cases h) (fun h => by cases h)
          (fun _ h => by cases h)
    · cases h
  | fnReturn c r =>
    simp only [step] at h
    split at h
    · rename_i hphase
      cases h
      cases r with
      | pending =>
        exact goes_on hi hphase rfl (fun _ => rfl) (fun h => by cases h) (fun _ h => by cases h)
      | result v =>
        exact goes_on hi hphase rfl (fun _ => rfl) (fun h => by cases h) (fun _ h => by cases h)
    · cases h
  | fnRaise c =>
    simp only [step] at h
    split at h
    · rename_i hphase
      cases h
      exact goes_on hi hphase rfl (fun _ => rfl) (fun h => by cases h) (fun _ h => by cases h)
    · cases h
  | publish c ok =>
    simp only [step] at h
    split at h
    · rename_i v hphase
      have hflight : (w.call c).phase.inFlight = true := by rw [hphase]; rfl
      cases ok with
      | true =>
        cases h
        have hrow : w.row.map (fun _ => Cell.result v) = some (.result v) := by
          rw [hi.pending c hflight]
          rfl
        exact ⟨inv_finish hi hflight rfl (fun v' hv => by cases hv; exact hrow),
          starts_alone_update rfl (fun h => by cases h)⟩
      | false =>
        cases h
        exact goes_on hi hphase rfl (fun _ => rfl) (fun h => by cases h) (fun _ h => by cases h)
    · cases h
  | cleanUp c =>
    simp only [step] at h
    split at h
    · rename_i hphase
      cases h
      have hflight : (w.call c).phase.inFlight = true := by rw [hphase]; rfl
      exact ⟨inv_finish hi hflight rfl (fun v hv => by cases hv),
        starts_alone_update rfl (fun h => by cases h)⟩
    · cases h
  | interrupt c =>
    simp only [step] at h
    split at h
    all_goals first
      | (rename_i hphase
         cases h
         exact goes_on hi hphase rfl (fun h => by cases h) (fun h => by cases h)
           (fun _ h => by cases h))
      | cases h
  | threadDies t =>
    cases h
    refine ⟨inv_threadDies t hi, starts_alone_of_kept fun d hd => ?_⟩
    simp only [threadDies] at hd
    split at hd
    · cases hd
    · exact hd
  | tick seconds =>
    cases h
    exact ⟨⟨hi.alive, hi.claim, hi.pending, hi.single, hi.durable⟩,
      starts_alone_of_kept fun _ hd => hd⟩

/-- In a run without takeovers each `fn` of the key executes alone, and a value that a
call returns from its own `fn` is in the row from then on. -/
theorem run_once_safe (c : Config V) (ls : List (Label V))
    (h : system.Along NoTakeover c.world ls) : RunOnceSafe c.world ls :=
  System.along_of_invariant (fun _ _ _ hi hs ht => (inv_step hi hs ht).1)
    (fun _ _ _ hi hs ht => ⟨(inv_step hi hs ht).2, (inv_step hi hs ht).1.durable⟩) (inv_init c) h

/-- Two threads, one ledger object with the default timeout, a fresh key. -/
def sharedLedger : Config Nat where
  row := none
  pendingTimeout := fun _ => 5
  ledger := fun _ => 0
  thread := fun c => c
  monotonic := 0

/-- `1` waits while `0` executes, and gets the stored value. -/
def waiter : List (Label Nat) :=
  [.enter 0, .poll 0 true, .enter 1, .poll 1 true, .fnReturn 0 (.result 7), .publish 0 true]

theorem run_once_safe_waiter : RunOnceSafe sharedLedger.world waiter := by
  refine run_once_safe sharedLedger waiter ?_
  refine fun _ h => ⟨trivial, ?_⟩
  cases h
  refine fun _ h => ⟨fun hrow => (by cases hrow), ?_⟩
  cases h
  refine fun _ h => ⟨trivial, ?_⟩
  cases h
  refine fun _ h => ⟨fun _ hlive => (by cases hlive), ?_⟩
  cases h
  exact fun _ _ => ⟨trivial, fun _ _ => ⟨trivial, trivial⟩⟩

/-- `0` executes for longer than the 30 seconds after which the waiter `1` drops its claim. -/
def slowOwner : List (Label Nat) :=
  [.enter 0, .poll 0 true, .enter 1, .poll 1 true, .tick 31, .wake 1]

theorem slow_owner_taken_over : ¬ RunOnceSafe sharedLedger.world (slowOwner ++ [.poll 1 true]) := by
  intro h
  obtain ⟨u, hu⟩ : ∃ u, system.run sharedLedger.world slowOwner = some u := ⟨_, rfl⟩
  have hcalls : (system.run sharedLedger.world slowOwner).map (fun w => (w.call 0, w.call 1)) =
      some (⟨0, 0, 30, .executing⟩, ⟨0, 1, 61, .looping⟩) := by decide
  have hstarted : (system.run sharedLedger.world (slowOwner ++ [.poll 1 true])).map
      (fun w => (w.call 1).phase) = some .executing := by decide
  have halive : (system.run sharedLedger.world slowOwner).map (·.isAlive 0) = some true := by decide
  obtain ⟨v, hv⟩ : ∃ v, system.run sharedLedger.world (slowOwner ++ [.poll 1 true]) = some v :=
    ⟨_, rfl⟩
  obtain ⟨u', hu', hstep⟩ := System.run_snoc.mp hv
  cases hu.symm.trans hu'
  simp only [hu, hv, Option.map_some, Option.some.injEq, Prod.mk.injEq] at hcalls hstarted halive
  have hlast := (System.along_append h hu v hstep).1.1 1 0 (by simp [hcalls.2]) hstarted
    (by decide) (by simp [hcalls.1])
  rw [hcalls.1, halive] at hlast
  cases hlast

end Recertia.Operation
