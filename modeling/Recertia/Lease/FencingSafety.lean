import Recertia.Lease.Fencing

/-! Which commits the fence lets through when acquires, steals and releases run
between the steps of a guarded call. -/
namespace Recertia.Fencing
open Transition Recertia.Lease

/-- The prepared, begun or fenced transaction of a call. -/
def CallPhase.active : CallPhase → Option Stage
  | .prepared s | .began s | .fenced s => some s
  | _ => none

/-- A token-less call past its `exists()` test on a connection that does not have the
lease database. -/
def Blind (w : Runtime) (c : CallId) : Prop :=
  (w.call c).fencingToken = none ∧ (storeOf w c).seesLeaseDb = false ∧
    (w.call c).phase.active = some .record

/-- Tokens rise from acquire to acquire, and none is returned that was not issued. -/
def TokensIncrease (w : Runtime) (_ : Label) (w' : Runtime) : Prop :=
  (∀ t, w'.issued = t :: w.issued → ∀ u ∈ w.issued ++ w.returned, u < t) ∧
    ∀ t ∈ w'.returned, t ∈ w'.issued

/-- A recording transaction commits under the last issued token while the row is held,
or without a token while nothing was ever issued. -/
def CommitFenced (w : Runtime) (l : Label) (_ : Runtime) : Prop :=
  match l with
  | .commit c _ =>
    (w.call c).phase = .fenced .record →
      match (w.call c).fencingToken with
      | some t => w.issued.head? = some t ∧
          ∃ r, w.world.row = some r ∧ r.fencingToken = t ∧ r.status = .held
      | none => w.world.row = none ∧ w.issued = []
  | _ => True

/-- A newer acquire, or a release, took the token out of use; any acquire ends the
token-less writes. -/
def Retired (w : Runtime) : Option Nat → Prop
  | none => w.issued ≠ []
  | some t => (∃ t' ∈ w.issued, t < t') ∨
      ∃ r, w.world.row = some r ∧ r.fencingToken = t ∧ r.status = .released

/-- No recording transaction commits under a token retired at an earlier point. -/
def RetiredSilent (w : Runtime) (ls : List Label) : Prop :=
  ∀ pre mid u v c o, pre ++ mid ++ [.commit c o] <+: ls → system.run w pre = some u →
    system.run u mid = some v → (v.call c).phase = .fenced .record →
    ¬ Retired u (v.call c).fencingToken

def FencingSafe (w : Runtime) (ls : List Label) : Prop :=
  system.Along TokensIncrease w ls ∧ system.Along CommitFenced w ls ∧ RetiredSilent w ls

/-- The acquire that commits the first row meets no blind call. -/
def NoBlindCall (w : Runtime) (_ : Label) (w' : Runtime) : Prop :=
  w.world.row = none → w'.world.row ≠ none → ∀ c, ¬ Blind w c

/-- The row carries the last issued token and stands in a table that exists. -/
structure Tokens (w : Runtime) : Prop where
  row : ∀ r, w.world.row = some r →
    w.fileExists = true ∧ w.tableExists = true ∧ w.issued.head? = some r.fencingToken
  never : w.world.row = none → w.issued = []
  decreasing : w.issued.Pairwise (· > ·)
  claimed : ∀ i t, (w.world.lease i).Claims t → t ∈ w.issued
  returned : ∀ t ∈ w.returned, t ∈ w.issued

theorem tokens_init (c : Config) : Tokens c.runtime where
  row r h := by
    have hrow : c.lease.row = some r := h
    simp [Config.runtime, hrow]
  never h := by
    have hrow : c.lease.row = none := h
    simp [Config.runtime, hrow]
  decreasing := by
    cases h : c.lease.row <;> simp [Config.runtime, h]
  claimed i t h := by rcases h with h | ⟨_, _, _, h⟩ <;> cases h
  returned t h := by cases h

/-- Either a lease step commits a row with a new, larger token, and that is the issued
one, or it issues nothing and the row keeps its token. -/
theorem lease_step_issued {w w' : World} {l : Lease.Label} (h : Lease.step w l = some w') :
    (issuedBy w' l = [] ∧ w'.row.map (·.fencingToken) = w.row.map (·.fencingToken)) ∨
    ∃ r, issuedBy w' l = [r.fencingToken] ∧ ensuresTable l = true ∧ w'.row = some r ∧
      ∀ r₀, w.row = some r₀ → r₀.fencingToken < r.fencingToken := by
  by_cases hl : ∃ i gen, l = .acquireRecord i gen
  · obtain ⟨i, gen, rfl⟩ := hl
    simp only [Lease.step] at h
    split at h
    · split at h
      · cases h
        left
        simp [issuedBy, acquireFailed, setLease]
      · rename_i r hr
        cases h
        right
        exact ⟨r, by simp [issuedBy, setLease], rfl, rfl, (recordAcquire_ok hr).2.2⟩
    · cases h
  · left
    constructor
    · cases l <;> first | rfl | exact absurd ⟨_, _, rfl⟩ hl
    · rcases step_row h with h' | ⟨i, gen, _, rfl, -⟩ | ⟨_, _, r, -, hr, -, h'⟩ | ⟨_, -, h'⟩
      · rw [h']
      · exact absurd ⟨i, gen, rfl⟩ hl
      · rw [hr, h']
        rfl
      · rw [h', Option.map_map]
        rfl

theorem issued_le_head {w : Runtime} (hw : Tokens w) {r : LeaseRow} (hr : w.world.row = some r)
    {t : Nat} (ht : t ∈ w.issued) : t ≤ r.fencingToken := by
  obtain ⟨-, -, hhead⟩ := hw.row r hr
  have hdec := hw.decreasing
  cases hi : w.issued with
  | nil => rw [hi] at ht; cases ht
  | cons a as =>
    rw [hi] at hhead ht hdec
    cases hhead
    rcases List.mem_cons.mp ht with rfl | ht
    · exact Nat.le_refl _
    · exact Nat.le_of_lt (List.rel_of_pairwise_cons hdec ht)

/-- A token above the row's is above every token issued so far. -/
theorem issued_lt {w : Runtime} (hw : Tokens w) {t : Nat}
    (hlt : ∀ r, w.world.row = some r → r.fencingToken < t) {u : Nat} (hu : u ∈ w.issued) : u < t := by
  cases hr : w.world.row with
  | none => rw [hw.never hr] at hu; cases hu
  | some r => exact Nat.lt_of_le_of_lt (issued_le_head hw hr hu) (hlt r hr)

/-- What a lease step leaves of the runtime, and what it may change. -/
theorem step_lease {w w' : Runtime} {l : Lease.Label} (h : step w (.lease l) = some w') :
    (writesLeaseDb l = true → w.writer = none) ∧ ∃ v, Lease.step w.world l = some v ∧
      w' = { w with
        world := v
        fileExists := w.fileExists || ensuresTable l
        tableExists := w.tableExists || ensuresTable l
        issued := issuedBy v l ++ w.issued
        returned := returnedBy v l ++ w.returned } := by
  simp only [step] at h
  split at h
  · cases h
  · rename_i hguard
    obtain ⟨v, hv, rfl⟩ := Option.map_eq_some_iff.mp h
    refine ⟨fun hl => ?_, v, hv, rfl⟩
    simpa [hl] using hguard

theorem tokens_lease {w w' : Runtime} {l : Lease.Label} (hw : Tokens w)
    (h : step w (.lease l) = some w') : Tokens w' := by
  obtain ⟨-, v, hv, rfl⟩ := step_lease h
  have hclaimed : ∀ i t, (v.lease i).Claims t → t ∈ issuedBy v l ++ w.issued := by
    intro i t hc
    rcases step_claims hv hc with hc | ⟨gen, r, rfl, hr, rfl, hlt⟩
    · exact List.mem_append_right _ (hw.claimed i t hc)
    · rcases lease_step_issued hv with ⟨-, hrow⟩ | ⟨r', hi, -, hr', -⟩
      · cases hr₀ : w.world.row with
        | none => simp [hr, hr₀] at hrow
        | some r₀ =>
          simp only [hr, hr₀, Option.map_some, Option.some.injEq] at hrow
          exact absurd (hlt r₀ hr₀) (by omega)
      · rw [hr] at hr'
        cases hr'
        simp [hi]
  have hreturned : ∀ t ∈ returnedBy v l ++ w.returned, t ∈ issuedBy v l ++ w.issued := by
    intro t ht
    rcases List.mem_append.mp ht with ht | ht
    · cases l with
      | acquireFinish i =>
        simp only [returnedBy, Option.mem_toList] at ht
        exact hclaimed i t (Or.inl ht)
      | _ => cases ht
    · exact List.mem_append_right _ (hw.returned t ht)
  rcases lease_step_issued hv with ⟨hi, hrow⟩ | ⟨r, hi, hens, hr, hlt⟩
  · refine ⟨fun r hr => ?_, fun hnone => ?_, by simpa [hi] using hw.decreasing, hclaimed, hreturned⟩
    · rw [show v.row = some r from hr] at hrow
      obtain ⟨r₀, hr₀, htok⟩ := Option.map_eq_some_iff.mp hrow.symm
      obtain ⟨hfile, htable, hhead⟩ := hw.row r₀ hr₀
      simpa [hfile, htable, hi, ← htok] using hhead
    · rw [show v.row = none from hnone] at hrow
      simpa [hi] using hw.never (Option.map_eq_none_iff.mp hrow.symm)
  · refine ⟨fun r' hr' => ?_, fun hnone => ?_, ?_, hclaimed, hreturned⟩
    · cases hr.symm.trans hr'
      simp [hi, hens]
    · cases hr.symm.trans hnone
    · simp only [hi, List.singleton_append]
      exact List.pairwise_cons.mpr ⟨fun u hu => issued_lt hw hlt hu, hw.decreasing⟩

theorem tokens_of_world {w w' : Runtime} (hw : Tokens w) (hworld : w'.world = w.world)
    (hfile : w.fileExists = true → w'.fileExists = true)
    (htable : w.tableExists = true → w'.tableExists = true)
    (hissued : w'.issued = w.issued) (hreturned : w'.returned = w.returned) : Tokens w' where
  row r hr := by
    obtain ⟨hf, ht, hh⟩ := hw.row r (hworld ▸ hr)
    exact ⟨hfile hf, htable ht, hissued ▸ hh⟩
  never hr := hissued ▸ hw.never (hworld ▸ hr)
  decreasing := hissued ▸ hw.decreasing
  claimed i t hc := hissued ▸ hw.claimed i t (hworld ▸ hc)
  returned t ht := hissued ▸ hw.returned t (hreturned ▸ ht)

/-- What call `c` leaves alone: the leases, the tokens, the other calls, the store of a
call that is inside its lock, and the write lock of another call. -/
structure ActsOn (c : CallId) (w w' : Runtime) : Prop where
  world : w'.world = w.world
  fileExists : w'.fileExists = w.fileExists
  tableExists : w'.tableExists = w.tableExists
  issued : w'.issued = w.issued
  returned : w'.returned = w.returned
  call : ∀ d, d ≠ c → w'.call d = w.call d
  store : ∀ d, d ≠ c → (storeOf w d).lock = some d → storeOf w' d = storeOf w d
  writer : ∀ d, d ≠ c → w.writer = some d → w'.writer = some d
  ownFile : ∀ s, (w'.store s).ownFile = (w.store s).ownFile

theorem acts_on_trans {c : CallId} {w u v : Runtime} (h : ActsOn c w u) (h' : ActsOn c u v) :
    ActsOn c w v where
  world := h'.world.trans h.world
  fileExists := h'.fileExists.trans h.fileExists
  tableExists := h'.tableExists.trans h.tableExists
  issued := h'.issued.trans h.issued
  returned := h'.returned.trans h.returned
  call d hd := (h'.call d hd).trans (h.call d hd)
  store d hd hl := by
    have hs := h.store d hd hl
    exact (h'.store d hd (by rw [hs]; exact hl)).trans hs
  writer d hd hw := h'.writer d hd (h.writer d hd hw)
  ownFile s := (h'.ownFile s).trans (h.ownFile s)

theorem acts_on_setPhase (w : Runtime) (c : CallId) (p : CallPhase) :
    ActsOn c w (setPhase w c p) where
  world := rfl
  fileExists := rfl
  tableExists := rfl
  issued := rfl
  returned := rfl
  call d hd := Function.update_of_ne hd _ _
  store d hd _ := by simp [storeOf, setPhase, Function.update_of_ne hd]
  writer _ _ h := h
  ownFile _ := rfl

/-- Writing the store of `c` is seen by no other call inside its lock, as long as `c`
holds the lock or nobody does. -/
theorem acts_on_setStore {w : Runtime} {c : CallId} {st : Store}
    (hown : st.ownFile = (storeOf w c).ownFile)
    (hst : ∀ d, d ≠ c → (storeOf w c).lock = some d → st = storeOf w c) :
    ActsOn c w (setStore w (w.call c).store st) where
  world := rfl
  fileExists := rfl
  tableExists := rfl
  issued := rfl
  returned := rfl
  call _ _ := rfl
  store d hd hl := by
    simp only [storeOf, setStore] at hl ⊢
    by_cases hs : (w.call d).store = (w.call c).store
    · rw [hs] at hl ⊢
      rw [Function.update_self]
      exact hst d hd hl
    · rw [Function.update_of_ne hs]
  writer _ _ h := h
  ownFile s := by
    simp only [setStore]
    by_cases hs : s = (w.call c).store
    · rw [hs, Function.update_self]
      exact hown
    · rw [Function.update_of_ne hs]

theorem acts_on_writer {w : Runtime} {c : CallId} {o : Option CallId}
    (ho : ∀ d, d ≠ c → w.writer = some d → o = some d) : ActsOn c w { w with writer := o } where
  world := rfl
  fileExists := rfl
  tableExists := rfl
  issued := rfl
  returned := rfl
  call _ _ := rfl
  store _ _ _ := rfl
  writer := ho
  ownFile _ := rfl

theorem acts_on_leave (w : Runtime) (c : CallId) (p : CallPhase) : ActsOn c w (leave w c p) := by
  unfold leave
  refine acts_on_trans (acts_on_trans (acts_on_setStore ?_ fun d hd hl => ?_)
    (acts_on_writer fun d hd hw => ?_)) (acts_on_setPhase _ c p)
  · rfl
  · have hc : (storeOf w c).lock ≠ some c := fun h => hd (Option.some.inj (hl.symm.trans h))
    simp only [if_neg hc]
  · have hc : w.writer ≠ some c := fun h => hd (Option.some.inj (Eq.trans hw.symm h))
    change (if w.writer = some c then none else w.writer) = some d
    rw [if_neg hc]
    exact hw

theorem acts_on_require (w : Runtime) (c : CallId) (table : Option (Option LeaseRow))
    (next : CallPhase) : ActsOn c w (require w c table next) := by
  unfold require
  dsimp only
  split
  · exact acts_on_setPhase w c next
  · exact acts_on_leave w c .failed

theorem acts_on_attach {w : Runtime} {c : CallId}
    (h : (storeOf w c).lock = none ∨ (storeOf w c).lock = some c) :
    ActsOn c w (attachLeaseSchema w c) :=
  acts_on_setStore rfl fun d hd hl => by
    rcases h with h | h
    · rw [h] at hl; cases hl
    · rw [h] at hl
      exact absurd (Option.some.inj hl).symm hd

/-- What the fence let the call through on: the row held under its token, on its own
connection, or no row at all. -/
def FenceSaw (w : Runtime) (c : CallId) : Prop :=
  match (w.call c).fencingToken with
  | some t => (storeOf w c).seesLeaseDb = true ∧
      ∃ r, w.world.row = some r ∧ r.fencingToken = t ∧ r.status = .held
  | none => w.world.row = none

theorem fence_saw_congr {w w' : Runtime} {c : CallId}
    (htok : (w'.call c).fencingToken = (w.call c).fencingToken)
    (hstore : storeOf w' c = storeOf w c) (hworld : w'.world = w.world) :
    FenceSaw w' c ↔ FenceSaw w c := by
  unfold FenceSaw
  rw [htok, hstore, hworld]

/-- What holds of one call at every point: inside its transaction it has the lock of its
store; a connection with the lease database also holds that database's write lock; and
what the fence saw is still there. -/
structure CallSafe (w : Runtime) (c : CallId) : Prop where
  lock : ∀ s, (w.call c).phase.active = some s → (storeOf w c).lock = some c
  writer : ∀ s, (w.call c).phase = .began s ∨ (w.call c).phase = .fenced s →
    (storeOf w c).seesLeaseDb = true → w.writer = some c
  fenced : (w.call c).phase = .fenced .record → FenceSaw w c
  blind : Blind w c → w.world.row = none

/-- Outside its transactions a call has nothing to keep. -/
theorem call_safe_of_inactive {w : Runtime} {c : CallId} (h : (w.call c).phase.active = none) :
    CallSafe w c where
  lock s hs := by rw [h] at hs; cases hs
  writer s hs := by rcases hs with hs | hs <;> rw [hs] at h <;> cases h
  fenced hs := by rw [hs] at h; cases h
  blind hb := by have := hb.2.2; rw [h] at this; cases this

theorem call_safe_frame {w w' : Runtime} {c d : CallId} (hd : d ≠ c) (ha : ActsOn c w w')
    (h : CallSafe w d) : CallSafe w' d := by
  have hcall := ha.call d hd
  by_cases hact : (w.call d).phase.active = none
  · exact call_safe_of_inactive (by rw [hcall]; exact hact)
  · obtain ⟨s, hs⟩ := Option.ne_none_iff_exists'.mp hact
    have hstore := ha.store d hd (h.lock s hs)
    constructor
    · intro s' hs'
      rw [hcall] at hs'
      rw [hstore]
      exact h.lock s' hs'
    · intro s' hs' hsee
      rw [hcall] at hs'
      rw [hstore] at hsee
      exact ha.writer d hd (h.writer s' hs' hsee)
    · intro hf
      rw [hcall] at hf
      exact (fence_saw_congr (by rw [hcall]) hstore ha.world).mpr (h.fenced hf)
    · intro hb
      rw [Blind, hcall, hstore] at hb
      rw [ha.world]
      exact h.blind hb

@[simp] theorem setPhase_phase (w : Runtime) (c : CallId) (p : CallPhase) :
    ((setPhase w c p).call c).phase = p := by
  simp [setPhase]

@[simp] theorem setPhase_token (w : Runtime) (c : CallId) (p : CallPhase) :
    ((setPhase w c p).call c).fencingToken = (w.call c).fencingToken := by
  simp [setPhase]

@[simp] theorem storeOf_setPhase (w : Runtime) (c : CallId) (p : CallPhase) :
    storeOf (setPhase w c p) c = storeOf w c := by
  simp [storeOf, setPhase]

theorem leave_phase (w : Runtime) (c : CallId) (p : CallPhase) :
    ((leave w c p).call c).phase = p :=
  setPhase_phase _ c p

theorem storeOf_attach (w : Runtime) (c : CallId) :
    storeOf (attachLeaseSchema w c) c = { storeOf w c with
      attached := (storeOf w c).attached || (w.fileExists && !(storeOf w c).ownFile)
      lock := some c } := by
  simp [storeOf, attachLeaseSchema, setStore]

theorem fenceTable_row {w : Runtime} {c : CallId} {r : LeaseRow}
    (h : fenceTable w c = some (some r)) :
    (storeOf w c).seesLeaseDb = true ∧ w.world.row = some r := by
  have htable : storeTable w (storeOf w c) = some (some r) := by
    unfold fenceTable at h
    split at h
    · exact h
    · split at h
      · exact h
      · cases h
  unfold storeTable at htable
  split at htable
  · rename_i hs
    exact ⟨(Bool.and_eq_true_iff.mp hs).1, Option.some.inj htable⟩
  · cases htable

theorem fenceTable_sees {w : Runtime} {c : CallId} {r : LeaseRow} (hw : Tokens w)
    (hs : (storeOf w c).seesLeaseDb = true) (hrow : w.world.row = some r) :
    fenceTable w c = some (some r) := by
  obtain ⟨hfile, htable, -⟩ := hw.row r hrow
  unfold fenceTable storeTable
  split <;> simp [hfile, htable, hs, hrow]

/-- A call that the fence inside the transaction lets through has seen the held row, or,
without a token, no row unless its connection cannot see one. -/
theorem fence_saw_of_passed {w : Runtime} {c : CallId} (hw : Tokens w)
    (hblind : (w.call c).fencingToken = none → (storeOf w c).seesLeaseDb = false →
      w.world.row = none)
    (h : requireLeaseToken (fenceTable w c) (w.call c).fencingToken
      (missingRowFor (w.call c).fencingToken) = .ok ()) : FenceSaw w c := by
  unfold FenceSaw
  cases htok : (w.call c).fencingToken with
  | some t =>
    rw [htok] at h
    obtain ⟨r, hr⟩ := require_lease_token_missing h
    obtain ⟨hs, hrow⟩ := fenceTable_row hr
    rw [hr] at h
    obtain ⟨hheld, ht⟩ := require_lease_token_row h
    exact ⟨hs, r, hrow, (Option.some.inj ht).symm, hheld⟩
  | none =>
    cases hs : (storeOf w c).seesLeaseDb with
    | false => exact hblind htok hs
    | true =>
      cases hrow : w.world.row with
      | none => rfl
      | some r =>
        rw [htok, fenceTable_sees hw hs hrow] at h
        cases (require_lease_token_row h).2

/-- A `prepare` that finds no lease database runs before any lease. -/
theorem call_safe_prepare {w : Runtime} {c : CallId} {s : Stage} (hw : Tokens w) :
    CallSafe (setPhase (attachLeaseSchema w c) c (.prepared s)) c where
  lock s' _ := by simp only [storeOf_setPhase, storeOf_attach]
  writer s' hs' := by simp only [setPhase_phase, reduceCtorEq, or_self] at hs'
  fenced hs := by simp only [setPhase_phase, reduceCtorEq] at hs
  blind hb := by
    obtain ⟨-, hsees, -⟩ := hb
    simp only [storeOf_setPhase, storeOf_attach, Store.seesLeaseDb, Bool.or_eq_false_iff,
      Bool.and_eq_false_iff, Bool.not_eq_eq_eq_not, Bool.not_false] at hsees
    obtain ⟨hown, -, hfile | hown'⟩ := hsees
    · cases hrow : w.world.row with
      | none => exact hrow
      | some r =>
        rw [(hw.row r hrow).1] at hfile
        cases hfile
    · rw [hown] at hown'
      cases hown'

/-- Going on inside the transaction keeps what the call had before; the new phase owes
the write lock and the fence. -/
theorem call_safe_advance {w : Runtime} {c : CallId} {p : CallPhase} {s : Stage}
    (h : CallSafe w c) (hact : (w.call c).phase.active = some s) (hp : p.active = some s)
    (hwriter : (storeOf w c).seesLeaseDb = true → w.writer = some c)
    (hfenced : p = .fenced .record → FenceSaw w c) :
    CallSafe (setPhase w c p) c where
  lock s' _ := by simpa only [storeOf_setPhase] using h.lock s hact
  writer _ _ hsees := hwriter (by simpa only [storeOf_setPhase] using hsees)
  fenced hs := by
    simp only [setPhase_phase] at hs
    exact (fence_saw_congr (setPhase_token w c p) (storeOf_setPhase w c p) rfl).mpr (hfenced hs)
  blind hb := by
    simp only [Blind, setPhase_token, storeOf_setPhase, setPhase_phase, hp] at hb
    exact h.blind ⟨hb.1, hb.2.1, hact.trans hb.2.2⟩

/-- Every step outside the lease objects acts on at most one call and keeps it safe. -/
theorem call_step {w w' : Runtime} {l : Label} (hw : Tokens w) (hs : ∀ c, CallSafe w c)
    (h : step w l = some w') :
    (∃ l', l = .lease l') ∨ (∃ table, l = .createLeaseDb table) ∨
      ∃ c, ActsOn c w w' ∧ CallSafe w' c := by
  have hleave : ∀ c p, p.active = none → CallSafe (leave w c p) c := fun c p hp =>
    call_safe_of_inactive (by rw [leave_phase]; exact hp)
  cases l with
  | lease l => exact Or.inl ⟨l, rfl⟩
  | createLeaseDb table => exact Or.inr (Or.inl ⟨table, rfl⟩)
  | enter c =>
    refine Or.inr (Or.inr ⟨c, ?_⟩)
    simp only [step] at h
    split at h
    · split at h
      · cases h
      · rename_i hlock
        cases h
        have hstore : ActsOn c w
            (setStore w (w.call c).store { storeOf w c with lock := some c }) :=
          acts_on_setStore rfl fun d _ hl => absurd (by rw [hl]; rfl) hlock
        refine ⟨acts_on_trans hstore (acts_on_require _ c _ _), call_safe_of_inactive ?_⟩
        unfold require
        dsimp only
        split
        · rw [setPhase_phase]; rfl
        · rw [leave_phase]; rfl
    · cases h
      exact ⟨acts_on_setPhase w c _, call_safe_of_inactive (by rw [setPhase_phase]; rfl)⟩
    · cases h
  | prepare c =>
    refine Or.inr (Or.inr ⟨c, ?_⟩)
    simp only [step] at h
    split at h
    · simp only [Option.ite_none_right_eq_some, Option.some.injEq] at h
      obtain ⟨hlock, rfl⟩ := h
      exact ⟨acts_on_trans (acts_on_attach hlock) (acts_on_setPhase _ c _), call_safe_prepare hw⟩
    · cases h
  | begin c =>
    refine Or.inr (Or.inr ⟨c, ?_⟩)
    simp only [step] at h
    split at h
    · rename_i s hphase
      have hact : (w.call c).phase.active = some s := by rw [hphase]; rfl
      split at h
      · split at h
        · cases h
        · rename_i hfree
          cases h
          have hwriter : ActsOn c w { w with writer := some c } :=
            acts_on_writer fun d _ hd => absurd (by rw [hd]; rfl) hfree
          have hsafe : CallSafe { w with writer := some c } c :=
            ⟨(hs c).lock, fun _ _ _ => rfl, (hs c).fenced, (hs c).blind⟩
          exact ⟨acts_on_trans hwriter (acts_on_setPhase _ c _),
            call_safe_advance hsafe hact rfl (fun _ => rfl) (fun hp => by cases hp)⟩
      · rename_i hsees
        cases h
        exact ⟨acts_on_setPhase w c _,
          call_safe_advance (hs c) hact rfl (fun h => absurd h hsees) (fun hp => by cases hp)⟩
    · cases h
  | check c =>
    refine Or.inr (Or.inr ⟨c, ?_⟩)
    simp only [step] at h
    split at h
    · rename_i s hphase
      have hact : (w.call c).phase.active = some s := by rw [hphase]; rfl
      cases h
      refine ⟨acts_on_require w c _ _, ?_⟩
      unfold require
      dsimp only
      split
      · rename_i hok
        refine call_safe_advance (hs c) hact rfl ((hs c).writer s (Or.inl hphase)) fun hp => ?_
        cases hp
        exact fence_saw_of_passed hw (fun htok hsees => (hs c).blind ⟨htok, hsees, hact⟩) hok
      · exact hleave c _ rfl
    · cases h
  | commit c o =>
    refine Or.inr (Or.inr ⟨c, ?_⟩)
    simp only [step] at h
    split at h
    · cases h
      exact ⟨acts_on_leave w c _, hleave c _ (by cases o <;> rfl)⟩
    · cases h
      exact ⟨acts_on_leave w c _, hleave c _ rfl⟩
    · cases h
  | fnReturn c =>
    refine Or.inr (Or.inr ⟨c, ?_⟩)
    simp only [step] at h
    split at h
    · cases h
      exact ⟨acts_on_setPhase w c _, call_safe_of_inactive (by rw [setPhase_phase]; rfl)⟩
    · cases h
  | abort c =>
    refine Or.inr (Or.inr ⟨c, ?_⟩)
    simp only [step] at h
    split at h
    · cases h
    · cases h
    · cases h
      exact ⟨acts_on_leave w c _, hleave c _ rfl⟩

/-- No lease step touches what a fenced call stands on: the row moves only while the
write lock is free, and its first commit meets no blind call. -/
theorem call_safe_lease {w w' : Runtime} {l : Lease.Label} {c : CallId}
    (h : step w (.lease l) = some w') (hb : NoBlindCall w (.lease l) w') (hs : CallSafe w c) :
    CallSafe w' c := by
  obtain ⟨hwriter, v, hv, rfl⟩ := step_lease h
  by_cases hrow : v.row = w.world.row
  · refine ⟨hs.lock, hs.writer, fun hf => ?_, fun hbl => hrow.trans (hs.blind hbl)⟩
    have hsaw := hs.fenced hf
    unfold FenceSaw at hsaw ⊢
    dsimp only [storeOf] at hsaw ⊢
    rw [hrow]
    exact hsaw
  · have hwrites : writesLeaseDb l = true := by
      rcases step_row hv with h' | ⟨_, _, _, rfl, -⟩ | ⟨_, _, _, rfl, -⟩ | ⟨_, rfl, -⟩
      · exact absurd h' hrow
      all_goals rfl
    have hfree : w.writer = none := hwriter hwrites
    have hnone : w.world.row = none → ¬ Blind w c := fun hnone =>
      hb hnone (fun hnew => hrow (hnew.trans hnone.symm)) c
    refine ⟨hs.lock, hs.writer, fun hf => ?_, fun hbl => absurd hbl (hnone (hs.blind hbl))⟩
    have hunseen : (storeOf w c).seesLeaseDb = false := by
      rw [Bool.eq_false_iff]
      intro hsees
      have := hs.writer _ (Or.inr hf) hsees
      rw [hfree] at this
      cases this
    have hsaw := hs.fenced hf
    unfold FenceSaw at hsaw
    split at hsaw
    · rw [hunseen] at hsaw
      cases hsaw.1
    · rename_i htok
      have hact : (w.call c).phase.active = some .record := by
        rw [show (w.call c).phase = .fenced .record from hf]
        rfl
      exact absurd ⟨htok, hunseen, hact⟩ (hnone hsaw)

structure Inv (w : Runtime) : Prop where
  tokens : Tokens w
  call : ∀ c, CallSafe w c

theorem inv_init (c : Config) : Inv c.runtime :=
  ⟨tokens_init c, fun _ => call_safe_of_inactive rfl⟩

theorem inv_step {w w' : Runtime} {l : Label} (hi : Inv w) (h : step w l = some w')
    (hb : NoBlindCall w l w') : Inv w' := by
  rcases call_step hi.tokens hi.call h with ⟨l', rfl⟩ | ⟨table, rfl⟩ | ⟨c, ha, hc⟩
  · exact ⟨tokens_lease hi.tokens h, fun c => call_safe_lease h hb (hi.call c)⟩
  · simp only [step, Option.ite_none_left_eq_some, Option.some.injEq] at h
    obtain ⟨-, rfl⟩ := h
    refine ⟨tokens_of_world hi.tokens rfl (fun _ => rfl) (fun ht => ?_) rfl rfl, fun c => ?_⟩
    · simp [ht]
    · exact ⟨(hi.call c).lock, (hi.call c).writer, (hi.call c).fenced, (hi.call c).blind⟩
  · refine ⟨tokens_of_world hi.tokens ha.world (fun hf => ha.fileExists.trans hf)
      (fun ht => ha.tableExists.trans ht) ha.issued ha.returned, fun d => ?_⟩
    by_cases hd : d = c
    · exact hd ▸ hc
    · exact call_safe_frame hd ha (hi.call d)

theorem inv_run {c : Config} {w : Runtime} {ls : List Label}
    (hb : system.Along NoBlindCall c.runtime ls) (h : system.run c.runtime ls = some w) : Inv w :=
  System.run_invariant_along (fun _ _ _ => inv_step) (inv_init c) hb h

theorem tokens_increase {w w' : Runtime} {l : Label} (hw : Tokens w) (hw' : Tokens w') :
    TokensIncrease w l w' := by
  refine ⟨fun t ht u hu => ?_, hw'.returned⟩
  have hdec := hw'.decreasing
  rw [ht] at hdec
  rcases List.mem_append.mp hu with hu | hu
  · exact List.rel_of_pairwise_cons hdec hu
  · exact List.rel_of_pairwise_cons hdec (hw.returned u hu)

theorem commit_fenced {w w' : Runtime} (hi : Inv w) (l : Label) : CommitFenced w l w' := by
  unfold CommitFenced
  split
  · rename_i c o
    intro hf
    have hsaw := (hi.call c).fenced hf
    unfold FenceSaw at hsaw
    split at hsaw
    · obtain ⟨-, r, hr, rfl, hheld⟩ := hsaw
      exact ⟨(hi.tokens.row r hr).2.2, r, hr, rfl, hheld⟩
    · exact ⟨hsaw, hi.tokens.never hsaw⟩
  · trivial

/-- A retired token stays retired. -/
theorem retired_step {w w' : Runtime} {l : Label} {token : Option Nat} (hi : Inv w)
    (h : step w l = some w') (hr : Retired w token) : Retired w' token := by
  rcases call_step hi.tokens hi.call h with ⟨l', rfl⟩ | ⟨table, rfl⟩ | ⟨c, ha, -⟩
  · obtain ⟨-, v, hv, rfl⟩ := step_lease h
    cases token with
    | none => exact List.append_ne_nil_of_right_ne_nil _ hr
    | some t =>
      rcases hr with ⟨t', ht', hlt⟩ | ⟨r, hrow, rfl, hrel⟩
      · exact Or.inl ⟨t', List.mem_append_right _ ht', hlt⟩
      · rcases step_row hv with h' | ⟨_, _, r', -, h', -, hnew⟩ |
          ⟨_, _, r', -, hr', -, h'⟩ | ⟨_, -, h'⟩
        · exact Or.inr ⟨r, h'.trans hrow, rfl, hrel⟩
        · rcases lease_step_issued hv with ⟨-, htok⟩ | ⟨r'', hiss, -, -, hlt⟩
          · simp only [h', hrow, Option.map_some, Option.some.injEq] at htok
            exact absurd (hnew r hrow) (by omega)
          · exact Or.inl ⟨r''.fencingToken, by simp [hiss], hlt r hrow⟩
        · cases hrow.symm.trans hr'
          exact Or.inr ⟨_, h', rfl, hrel⟩
        · rw [hrow] at h'
          exact Or.inr ⟨_, h', rfl, rfl⟩
  · simp only [step, Option.ite_none_left_eq_some, Option.some.injEq] at h
    obtain ⟨-, rfl⟩ := h
    cases token <;> exact hr
  · cases token with
    | none =>
      unfold Retired
      rw [ha.issued]
      exact hr
    | some t =>
      unfold Retired
      rw [ha.issued, ha.world]
      exact hr

structure RetiredInv (token : Option Nat) (w : Runtime) : Prop where
  inv : Inv w
  retired : Retired w token

theorem retired_inv_step {w w' : Runtime} {l : Label} {token : Option Nat}
    (h : RetiredInv token w) (hstep : step w l = some w') (hb : NoBlindCall w l w') :
    RetiredInv token w' :=
  ⟨inv_step h.inv hstep hb, retired_step h.inv hstep h.retired⟩

theorem not_retired_of_fenced {w : Runtime} (hi : Inv w) {c : CallId}
    (hf : (w.call c).phase = .fenced .record) : ¬ Retired w (w.call c).fencingToken := by
  have hfenced : CommitFenced w (.commit c .claimed) w := commit_fenced hi _
  have hcommit := hfenced hf
  intro hr
  cases htok : (w.call c).fencingToken with
  | none =>
    rw [htok] at hcommit hr
    exact hr hcommit.2
  | some t =>
    rw [htok] at hcommit hr
    obtain ⟨-, r, hrow, rfl, hheld⟩ := hcommit
    rcases hr with ⟨t', ht', hlt⟩ | ⟨r', hrow', -, hrel⟩
    · exact absurd (issued_le_head hi.tokens hrow ht') (Nat.not_le.mpr hlt)
    · cases hrow.symm.trans hrow'
      rw [hheld] at hrel
      cases hrel

theorem retired_silent {c : Config} {ls : List Label}
    (hb : system.Along NoBlindCall c.runtime ls) : RetiredSilent c.runtime ls := by
  rintro pre mid u v d o ⟨post, rfl⟩ hu hv hf hr
  have hpre : system.Along NoBlindCall c.runtime (pre ++ mid) :=
    System.along_prefix (System.along_prefix hb)
  have hkeep : RetiredInv (v.call d).fencingToken v :=
    System.run_invariant_along (fun _ _ _ => retired_inv_step)
      ⟨inv_run (System.along_prefix hpre) hu, hr⟩ (System.along_append hpre hu) hv
  exact not_retired_of_fenced hkeep.inv hf hkeep.retired

theorem step_ownFile {w w' : Runtime} {l : Label} (hi : Inv w) (h : step w l = some w')
    (s : StoreId) : (w'.store s).ownFile = (w.store s).ownFile := by
  rcases call_step hi.tokens hi.call h with ⟨l', rfl⟩ | ⟨table, rfl⟩ | ⟨c, ha, -⟩
  · obtain ⟨-, v, -, rfl⟩ := step_lease h
    rfl
  · simp only [step, Option.ite_none_left_eq_some, Option.some.injEq] at h
    obtain ⟨-, rfl⟩ := h
    rfl
  · exact ha.ownFile s

structure OwnFiles (w : Runtime) : Prop where
  inv : Inv w
  ownFile : ∀ s, (w.store s).ownFile = true

theorem own_files_not_blind {w : Runtime} (h : OwnFiles w) (c : CallId) : ¬ Blind w c := by
  rintro ⟨-, hsees, -⟩
  simp [Store.seesLeaseDb, storeOf, h.ownFile] at hsees

theorem own_files_step {w w' : Runtime} {l : Label} (h : OwnFiles w) (hstep : step w l = some w') :
    OwnFiles w' :=
  ⟨inv_step h.inv hstep fun _ _ => own_files_not_blind h,
    fun s => (step_ownFile h.inv hstep s).trans (h.ownFile s)⟩

/-- Stores that live in the lease database itself never make a blind call. -/
theorem no_blind_call {c : Config} (hown : ∀ s, c.ownFile s = true) (ls : List Label) :
    system.Along NoBlindCall c.runtime ls := by
  have hinit : OwnFiles c.runtime := ⟨inv_init c, hown⟩
  exact System.along_of_inductive (fun _ _ _ => own_files_step)
    (fun _ _ _ hw _ _ _ => own_files_not_blind hw) hinit

/-- Fencing holds in every run in which no token-less call is past its `exists()` test
of a missing lease database when the first row is committed. -/
theorem fencing_safe (c : Config) (ls : List Label)
    (hb : system.Along NoBlindCall c.runtime ls) : FencingSafe c.runtime ls :=
  ⟨System.along_of_invariant (fun _ _ _ => inv_step)
      (fun _ _ _ hi h hg => tokens_increase hi.tokens (inv_step hi h hg).tokens) (inv_init c) hb,
    System.along_of_invariant (fun _ _ _ => inv_step)
      (fun _ l _ hi _ _ => commit_fenced hi l) (inv_init c) hb,
    retired_silent hb⟩

/-- A run that nobody has leased and that saves through one store. -/
def firstLease (ownFile : Bool) (fencingToken : Option Nat) : Config where
  lease := twoProcesses
  fileExists := false
  tableExists := false
  ownFile := fun _ => ownFile
  kind := fun _ => .save
  store := fun _ => 0
  fencingToken := fun _ => fencingToken

def leasedSave : List Label :=
  [.lease (.acquireBegin 0), .lease (.acquireRecord 0 "a"), .lease (.acquireFinish 0),
    .enter 0, .prepare 0, .begin 0, .check 0, .commit 0 .claimed]

theorem fencing_safe_leased_save : FencingSafe (firstLease true (some 1)).runtime leasedSave :=
  fencing_safe _ _ (no_blind_call (fun _ => rfl) leasedSave)

/-- On a legacy checkpoint file a token-less save passes its first check and its
`exists()` test, and then the first acquire creates the lease database and commits. -/
def blindSave : List Label :=
  [.enter 0, .prepare 0, .lease (.acquireBegin 0), .lease (.acquireRecord 0 "a"),
    .lease (.acquireFinish 0), .begin 0, .check 0]

theorem blind_save_commits :
    ¬ FencingSafe (firstLease false none).runtime (blindSave ++ [.commit 0 .claimed]) := by
  rintro ⟨-, h, -⟩
  obtain ⟨u, hu⟩ : ∃ u, system.run (firstLease false none).runtime blindSave = some u := ⟨_, rfl⟩
  have hcall : (system.run (firstLease false none).runtime blindSave).map (·.call 0) =
      some ⟨.save, 0, none, .fenced .record⟩ := by decide
  have hissued : (system.run (firstLease false none).runtime blindSave).map (·.issued) =
      some [1] := by decide
  simp only [hu, Option.map_some, Option.some.injEq] at hcall hissued
  have hstep : system.step u (.commit 0 .claimed) = some (leave u 0 .done) := by
    simp only [system, step, hcall]
  have hlast := (System.along_append h hu _ hstep).1
  simp only [CommitFenced, hcall, forall_const, hissued] at hlast
  exact absurd hlast.2 (by decide)

end Recertia.Fencing
