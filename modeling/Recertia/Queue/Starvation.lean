import Recertia.Queue.Fairness

/-! Two tenants, one of them alone for a long time: its deficit falls with every claim, and
later the other is served first until the deficits have met. -/
namespace Recertia.Queue
open Transition

/-- Tenant `a` is `false` and tenant `b` is `true`; each has one item. -/
def pairKey (x : Bool) : Key := ⟨if x then "b" else "a", "r", "run"⟩

def pairItem (x : Bool) : QueueItem Unit := ⟨(pairKey x).tenant, "r", "run", (), 0, 3, none, none⟩

/-- A database with the rows of the two tenants, due at 0. -/
structure Pair (db : Db Unit) (d : Bool → Int) (status : Bool → Status) : Prop where
  opened : db.maintenance = some .open
  row : ∀ x, ∃ row, db.runQueue.get? (pairKey x) = some row ∧ row.status = status x ∧
    row.notBefore ≤ 0
  only : ∀ key row, db.runQueue.get? key = some row → ∃ x, key = pairKey x
  sched : ∀ x, ∃ sched, db.tenantSched.get? (pairKey x).tenant = some sched ∧
    sched.deficit = d x ∧ sched.weight = 1
  limits : ∀ x, db.tenantLimits.get? (pairKey x).tenant = some ⟨4, 100⟩

theorem pairKey_tenant_injective {x y : Bool} (h : (pairKey x).tenant = (pairKey y).tenant) :
    x = y := by
  cases x <;> cases y <;> first | rfl | (revert h; decide)

theorem Pair.deficit {db : Db Unit} {d : Bool → Int} {status : Bool → Status}
    (h : Pair db d status) (x : Bool) : db.deficit (pairKey x).tenant = d x := by
  obtain ⟨sched, hsched, hdeficit, -⟩ := h.sched x
  rw [Db.deficit, hsched]
  exact hdeficit

/-- No row of a tenant counts whose one row does not. -/
theorem Pair.count_eq_zero {db : Db Unit} {d : Bool → Int} {status : Bool → Status}
    (h : Pair db d status) (x : Bool) {q : Key → Row Unit → Bool}
    (htenant : ∀ key row, q key row = true → key.tenant = (pairKey x).tenant)
    (hrow : ∀ row, row.status = status x → q (pairKey x) row = false) :
    db.runQueue.count q = 0 := by
  have hle : db.runQueue.count q ≤ Table.empty.count q + ([] : List Key).length := by
    apply Table.count_le
    intro key row hget hq
    obtain ⟨y, rfl⟩ := h.only key row hget
    have hxy : y = x := pairKey_tenant_injective (htenant _ _ hq)
    subst hxy
    obtain ⟨row', hget', hstatus, -⟩ := h.row y
    rw [hget] at hget'
    cases hget'
    rw [hrow row hstatus] at hq
    cases hq
  exact Nat.le_zero.mp hle

theorem Pair.inFlight {db : Db Unit} {d : Bool → Int} {status : Bool → Status}
    (h : Pair db d status) {x : Bool} (hstatus : (status x).inFlight = false) :
    db.inFlight (pairKey x).tenant = 0 := by
  apply h.count_eq_zero x
  · intro key row hq
    exact of_decide_eq_true (Bool.and_eq_true_iff.mp hq).1
  · intro row hrow
    simp [isInFlightOf, hrow, hstatus]

theorem Pair.claimable_iff {db : Db Unit} {d : Bool → Int} {status : Bool → Status}
    (h : Pair db d status) {x : Bool} {row : Row Unit}
    (hrow : db.runQueue.get? (pairKey x) = some row) :
    db.claimable 0 (pairKey x) row = true ↔ status x = .queued := by
  obtain ⟨row', hrow', hstatus, hdue⟩ := h.row x
  rw [hrow] at hrow'
  cases hrow'
  rw [Queue.claimable_iff]
  constructor
  · intro hclaimable
    rw [← hstatus]
    exact hclaimable.1
  · intro hqueued
    obtain ⟨sched, hsched, -⟩ := h.sched x
    refine ⟨hstatus.trans hqueued, hdue, ⟨sched, hsched⟩, _, h.limits x, ?_⟩
    rw [h.inFlight (by rw [hqueued]; rfl)]
    decide

theorem put_replace {cfg : Settings} {key : Key} {row old : Row Unit} {db : Db Unit}
    (hold : db.runQueue.get? key = some old) (hterminal : old.status.terminal = true)
    (hroom : (db.depth key.tenant : Int) < db.queueCap cfg key.tenant) :
    db.put cfg key row true = .ok { db with
      runQueue := db.runQueue.update (fun k _ => k = key) (replaced row) } := by
  unfold Db.put
  simp only [hold, hterminal, Bool.and_self, if_true, if_neg (not_le.mpr hroom)]

/-- A change of one row that leaves the other tables. -/
theorem Pair.update {db : Db Unit} {d : Bool → Int} {status : Bool → Status}
    (h : Pair db d status) (x : Bool) {s : Status} {p : Key → Row Unit → Bool}
    {f : Row Unit → Row Unit} (hother : ∀ key row, p key row = true → key = pairKey x)
    (hthis : ∀ row, db.runQueue.get? (pairKey x) = some row → row.status = status x →
      row.notBefore ≤ 0 → p (pairKey x) row = true ∧ (f row).status = s ∧ (f row).notBefore ≤ 0) :
    Pair { db with runQueue := db.runQueue.update p f } d (Function.update status x s) where
  opened := h.opened
  sched := h.sched
  limits := h.limits
  row y := by
    obtain ⟨row, hrow, hstatus, hdue⟩ := h.row y
    show ∃ row, (db.runQueue.update p f).get? (pairKey y) = some row ∧ _
    rw [Table.get?_update, hrow, Option.map_some]
    by_cases hxy : y = x
    · subst hxy
      obtain ⟨hp, hs, hd⟩ := hthis row hrow hstatus hdue
      rw [if_pos hp, Function.update_self]
      exact ⟨f row, rfl, hs, hd⟩
    · have hp : ¬ p (pairKey y) row = true := by
        intro hp
        exact hxy (pairKey_tenant_injective (congrArg Key.tenant (hother _ _ hp)))
      rw [if_neg hp, Function.update_of_ne hxy]
      exact ⟨row, rfl, hstatus, hdue⟩
  only key row hrow := by
    have hrow' : (db.runQueue.update p f).get? key = some row := hrow
    rw [Table.get?_update] at hrow'
    obtain ⟨old, hold, -⟩ := Option.map_eq_some_iff.mp hrow'
    exact h.only key old hold

theorem Pair.ensureTenant {db : Db Unit} {d : Bool → Int} {status : Bool → Status}
    (h : Pair db d status) (x : Bool) : Pair (db.ensureTenant {} (pairKey x).tenant) d status where
  opened := h.opened
  row := h.row
  only := h.only
  sched y := by
    obtain ⟨sched, hsched, hd⟩ := h.sched y
    refine ⟨sched, ?_, hd⟩
    show (db.tenantSched.insertOrIgnore _ _).get? _ = _
    rw [Table.get?_insertOrIgnore]
    split
    · rename_i heq
      rw [← heq, hsched, Option.getD_some]
    · exact hsched
  limits y := by
    show (db.tenantLimits.insertOrIgnore _ _).get? _ = _
    rw [Table.get?_insertOrIgnore]
    split
    · rename_i heq
      rw [← heq, h.limits y, Option.getD_some]
    · exact h.limits y

/-- `enqueue` with `replace_terminal`. -/
theorem Pair.enqueue {db : Db Unit} {d : Bool → Int} {status : Bool → Status}
    (h : Pair db d status) (x : Bool) (hterminal : (status x).terminal = true) :
    ∃ db', db.serve ⟨{}, 0, .enqueue (pairItem x) true⟩ = some db' ∧
      Pair db' d (Function.update status x .queued) := by
  have htenant : tenantId (pairItem x).tenantId = some (pairKey x).tenant := by
    cases x <;> decide +kernel
  have hensured := h.ensureTenant x
  obtain ⟨old, hold, hstatus, -⟩ := hensured.row x
  have hdepth : (db.ensureTenant {} (pairKey x).tenant).depth (pairKey x).tenant = 0 := by
    apply hensured.count_eq_zero x
    · intro key row hq
      exact of_decide_eq_true (Bool.and_eq_true_iff.mp hq).1
    · intro row hrow
      have hne : row.status ≠ .queued := by
        intro hqueued
        rw [← hrow, hqueued] at hterminal
        cases hterminal
      simp [isQueuedOf, hne]
  have hput : (db.ensureTenant {} (pairKey x).tenant).put {} (pairKey x) ((pairItem x).row {} 0)
      true = .ok { db.ensureTenant {} (pairKey x).tenant with
        runQueue := (db.ensureTenant {} (pairKey x).tenant).runQueue.update
          (fun k _ => k = pairKey x) (replaced ((pairItem x).row {} 0)) } := by
    apply put_replace hold (hstatus ▸ hterminal)
    rw [hdepth, Db.queueCap, hensured.limits x]
    decide
  refine ⟨_, rfl, ?_⟩
  have hkind : ¬ (pairItem x).kind ∉ ["run", "eval", "job"] := by
    cases x <;> decide
  have henqueue : (db.enqueue {} 0 (pairItem x) true).1 =
      { db.ensureTenant {} (pairKey x).tenant with
        runQueue := (db.ensureTenant {} (pairKey x).tenant).runQueue.update
          (fun k _ => k = pairKey x) (replaced ((pairItem x).row {} 0)) } := by
    have hkey : (⟨(pairKey x).tenant, (pairItem x).runId, (pairItem x).kind⟩ : Key) =
        pairKey x := rfl
    unfold Db.enqueue
    simp only [htenant, if_neg hkind, hkey, hput]
  show Pair (db.enqueue {} 0 (pairItem x) true).1 d _
  rw [henqueue]
  apply hensured.update x
  · intro key row hp
    exact of_decide_eq_true hp
  · intro row _ _ _
    exact ⟨decide_eq_true rfl, rfl, le_refl 0⟩

/-- A claim of an item that no other tenant's item precedes. -/
theorem Pair.claim {db : Db Unit} {d : Bool → Int} {status : Bool → Status}
    (h : Pair db d status) (x : Bool) (hqueued : status x = .queued)
    (hother : status (!x) = .queued → d (!x) < d x) :
    ∃ db', db.serve ⟨{}, 0, .claim "w" (pairKey x)⟩ = some db' ∧
      db.claimed ⟨{}, 0, .claim "w" (pairKey x)⟩ = some (pairKey x) ∧
      Pair db' (fun y => if y = x then d x - 1 else min (d y + 1) 1000)
        (Function.update status x .claimed) := by
  obtain ⟨row, hrow, hstatus, hdue⟩ := h.row x
  have hclaimable : db.claimable 0 (pairKey x) row = true := (h.claimable_iff hrow).mpr hqueued
  have hbest : ∀ other ∈ db.candidates 0, db.sortsUpTo (pairKey x, row) other = true := by
    rintro ⟨key, other⟩ hmem
    obtain ⟨hget, hcan⟩ := mem_candidates.mp hmem
    have hget' := Table.get?_eq_some.mpr hget
    obtain ⟨y, rfl⟩ := h.only key other hget'
    unfold Db.sortsUpTo
    simp only [h.deficit]
    by_cases hxy : y = x
    · subst hxy
      rw [hrow] at hget'
      cases hget'
      simp
    · have hy : y = !x := by
        cases x <;> cases y <;> first | rfl | exact absurd rfl hxy
      subst hy
      have hlt := hother ((h.claimable_iff hget').mp hcan)
      simp [hlt]
  have hpicks : db.picks 0 (pairKey x, row) = true := picks_iff.mpr ⟨hclaimable, hbest⟩
  have hsome : (db.candidates 0).isEmpty = false := by
    have hmem := mem_candidates.mpr ⟨Table.get?_eq_some.mp hrow, hclaimable⟩
    cases hc : db.candidates 0 with
    | nil =>
      rw [hc] at hmem
      cases hmem
    | cons first rest => rfl
  have hclaim : db.claimOne {} 0 "w" (pairKey x) = some (db.take {} 0 "w" (pairKey x),
      some ⟨pairKey x, row.claimToken + 1, row.attempt, row.payload⟩) := by
    unfold Db.claimOne
    simp [h.opened, hsome, hrow, hpicks]
  refine ⟨db.take {} 0 "w" (pairKey x), ?_, ?_, ?_⟩
  · show (db.claimOne {} 0 "w" (pairKey x)).map Prod.fst = _
    rw [hclaim, Option.map_some]
  · show ((db.claimOne {} 0 "w" (pairKey x)).bind Prod.snd).map Claim.key = _
    rw [hclaim]
    rfl
  · have hrows := h.update x (s := .claimed)
      (p := fun k row => k = pairKey x && row.status = .queued)
      (f := fun row => { row with
        status := .claimed, claimedBy := some "w", claimToken := row.claimToken + 1
        heartbeatAt := some 0 })
      (fun key row hp => of_decide_eq_true (Bool.and_eq_true_iff.mp hp).1)
      (fun row _ hstat hd => ⟨by simp [hstat, hqueued], rfl, hd⟩)
    refine ⟨h.opened, hrows.row, hrows.only, ?_, h.limits⟩
    intro y
    obtain ⟨sched, hsched, hd, hweight⟩ := h.sched y
    rw [get?_take_sched, hsched, Option.map_some]
    refine ⟨_, rfl, ?_⟩
    by_cases hxy : y = x
    · subst hxy
      rw [if_pos rfl, if_pos rfl]
      exact ⟨by rw [hd], hweight⟩
    · have hne : (pairKey y).tenant ≠ (pairKey x).tenant :=
        fun heq => hxy (pairKey_tenant_injective heq)
      rw [if_neg hne, if_neg hxy]
      exact ⟨by rw [hd, hweight], hweight⟩

theorem Pair.finish {db : Db Unit} {d : Bool → Int} {status : Bool → Status}
    (h : Pair db d status) (x : Bool) (hclaimed : status x = .claimed) :
    ∃ claim db', db.serve ⟨{}, 0, .finish claim ⟨.succeeded, rfl⟩ none⟩ = some db' ∧
      Pair db' d (Function.update status x .succeeded) := by
  obtain ⟨row, hrow, hstatus, hdue⟩ := h.row x
  let claim : Claim Unit := ⟨pairKey x, row.claimToken, row.attempt, ()⟩
  refine ⟨claim, _, rfl, ?_⟩
  show Pair (db.transition 0 claim .succeeded none [.claimed, .running]).1 d _
  rw [transition_fst]
  apply h.update x
  · intro key row hp
    exact (holds_iff.mp hp).1
  · intro row' hrow' hstatus' hdue'
    rw [hrow] at hrow'
    cases hrow'
    have hmem : row.status ∈ [Status.claimed, .running] := by
      rw [hstatus', hclaimed]
      exact List.mem_cons_self
    exact ⟨holds_iff.mpr ⟨rfl, rfl, hmem⟩, rfl, hdue'⟩

/-! Rounds -/

theorem Pair.waits {db : Db Unit} {d : Bool → Int} {status : Bool → Status}
    (h : Pair db d status) {x : Bool} (hqueued : status x = .queued) :
    db.waits 0 (pairKey x).tenant = true := by
  obtain ⟨row, hrow, -⟩ := h.row x
  refine List.any_eq_true.mpr ⟨(pairKey x, row), ?_, decide_eq_true rfl⟩
  exact mem_candidates.mpr ⟨Table.get?_eq_some.mp hrow, (h.claimable_iff hrow).mpr hqueued⟩

/-- An item is enqueued, claimed and finished, while that of the other tenant may wait. -/
theorem Pair.round {db : Db Unit} {d : Bool → Int} {status : Bool → Status}
    (h : Pair db d status) (x : Bool) (hterminal : (status x).terminal = true)
    (hother : status (!x) = .queued → d (!x) < d x) (passes : String → ℕ) :
    ∃ ls db' passes', ((queueSystem Unit).monitor countPasses).run (db, passes) ls =
        some (db', passes') ∧
      (status (!x) = .queued →
        passes' (pairKey !x).tenant = passes (pairKey !x).tenant + 1) ∧
      Pair db' (fun y => if y = x then d x - 1 else min (d y + 1) 1000)
        (Function.update status x .succeeded) := by
  have hne : (!x) ≠ x := by cases x <;> decide
  obtain ⟨db₁, hserve₁, h₁⟩ := h.enqueue x hterminal
  have hother₁ : Function.update status x .queued (!x) = status (!x) :=
    Function.update_of_ne hne _ _
  obtain ⟨db₂, hserve₂, hclaimed, h₂⟩ := h₁.claim x (Function.update_self _ _ _)
    fun hq => hother (hother₁ ▸ hq)
  obtain ⟨claim, db₃, hserve₃, h₃⟩ := h₂.finish x (Function.update_self _ _ _)
  rw [Function.update_idem, Function.update_idem] at h₃
  let passes₂ := countPasses db₁ ⟨{}, 0, .claim "w" (pairKey x)⟩ db₂ passes
  refine ⟨[⟨{}, 0, .enqueue (pairItem x) true⟩, ⟨{}, 0, .claim "w" (pairKey x)⟩,
    ⟨{}, 0, .finish claim ⟨.succeeded, rfl⟩ none⟩], db₃, passes₂, ?_, ?_, h₃⟩
  · refine System.run_cons.mpr ⟨(db₁, passes), System.monitor_step.mpr ⟨hserve₁, rfl⟩, ?_⟩
    refine System.run_cons.mpr ⟨(db₂, passes₂), System.monitor_step.mpr ⟨hserve₂, rfl⟩, ?_⟩
    exact System.run_cons.mpr ⟨(db₃, passes₂), System.monitor_step.mpr ⟨hserve₃, rfl⟩, rfl⟩
  · intro hqueued
    have hwaits := h₁.waits (x := !x) (hother₁.trans hqueued)
    have htenant : (pairKey !x).tenant ≠ (pairKey x).tenant :=
      fun heq => hne (pairKey_tenant_injective heq)
    show countPasses db₁ _ db₂ passes _ = _
    simp only [countPasses, hclaimed, if_neg htenant, hwaits, if_true]

/-- Each tenant has had one claim. -/
def firstClaims : List (Request Unit) :=
  [⟨{}, 0, .enqueue (pairItem false) true⟩, ⟨{}, 0, .claim "w" (pairKey false)⟩,
   ⟨{}, 0, .finish ⟨pairKey false, 1, 0, ()⟩ ⟨.succeeded, rfl⟩ none⟩,
   ⟨{}, 0, .enqueue (pairItem true) true⟩, ⟨{}, 0, .claim "w" (pairKey true)⟩,
   ⟨{}, 0, .finish ⟨pairKey true, 1, 0, ()⟩ ⟨.succeeded, rfl⟩ none⟩]

/-- What a pair says of one tenant. -/
structure PairView where
  row : Option (Status × Int)
  sched : Option (Int × Int)
  limits : Option Limits
  deriving DecidableEq

def pairView (db : Db Unit) (x : Bool) : PairView where
  row := (db.runQueue.get? (pairKey x)).map fun row => (row.status, row.notBefore)
  sched := (db.tenantSched.get? (pairKey x).tenant).map fun sched => (sched.deficit, sched.weight)
  limits := db.tenantLimits.get? (pairKey x).tenant

theorem pair_firstClaims : ∃ db passes,
    ((queueSystem Unit).monitor countPasses).run (Db.migrated Unit, fun _ => 0) firstClaims =
      some (db, passes) ∧
    Pair db (fun x => if x then -1 else 0) (fun _ => .succeeded) := by
  have hview : (((queueSystem Unit).monitor countPasses).run (Db.migrated Unit, fun _ => 0)
      firstClaims).map (fun s => (s.1.maintenance, s.1.runQueue.keys, pairView s.1 false,
        pairView s.1 true)) =
      some (some .open, [pairKey false, pairKey true],
        ⟨some (.succeeded, 0), some (0, 1), some ⟨4, 100⟩⟩,
        ⟨some (.succeeded, 0), some (-1, 1), some ⟨4, 100⟩⟩) := by
    decide +kernel
  obtain ⟨⟨db, passes⟩, hrun, hviews⟩ := Option.map_eq_some_iff.mp hview
  obtain ⟨hopen, hviews⟩ := Prod.mk.inj hviews
  obtain ⟨hkeys, hviews⟩ := Prod.mk.inj hviews
  obtain ⟨hfalse, htrue⟩ := Prod.mk.inj hviews
  have hboth : ∀ x, pairView db x =
      ⟨some (.succeeded, 0), some (if x then -1 else 0, 1), some ⟨4, 100⟩⟩ := by
    intro x
    cases x
    · exact hfalse
    · exact htrue
  refine ⟨db, passes, hrun, hopen, ?_, ?_, ?_, ?_⟩
  · intro x
    obtain ⟨row, hrow, heq⟩ := Option.map_eq_some_iff.mp (congrArg PairView.row (hboth x))
    obtain ⟨hstatus, hdue⟩ := Prod.mk.inj heq
    exact ⟨row, hrow, hstatus, le_of_eq hdue⟩
  · intro key row hrow
    have hmem : key ∈ db.runQueue.keys :=
      Table.mem_keys.mpr ⟨row, Table.get?_eq_some.mp hrow⟩
    have hkeys' : db.runQueue.keys = [pairKey false, pairKey true] := hkeys
    rw [hkeys'] at hmem
    rcases List.mem_cons.mp hmem with rfl | hmem
    · exact ⟨false, rfl⟩
    · exact ⟨true, List.mem_singleton.mp hmem⟩
  · intro x
    obtain ⟨sched, hsched, heq⟩ :=
      Option.map_eq_some_iff.mp (congrArg PairView.sched (hboth x))
    obtain ⟨hdeficit, hweight⟩ := Prod.mk.inj heq
    exact ⟨sched, hsched, hdeficit, hweight⟩
  · intro x
    exact congrArg PairView.limits (hboth x)

/-- `n` claims of tenant `a` while nobody competes. -/
theorem lone_rounds (n : ℕ) : ∃ ls db passes d,
    ((queueSystem Unit).monitor countPasses).run (Db.migrated Unit, fun _ => 0) ls =
      some (db, passes) ∧
    Pair db d (fun _ => .succeeded) ∧ d false ≤ -n ∧ -1 ≤ d true := by
  induction n with
  | zero =>
    obtain ⟨db, passes, hrun, hpair⟩ := pair_firstClaims
    exact ⟨firstClaims, db, passes, _, hrun, hpair, le_refl _, le_refl _⟩
  | succ n ih =>
    obtain ⟨ls, db, passes, d, hrun, hpair, hfalse, htrue⟩ := ih
    obtain ⟨ms, db', passes', hround, -, hpair'⟩ :=
      hpair.round false rfl (fun h => by cases h) passes
    have hsame : Function.update (fun _ : Bool => Status.succeeded) false .succeeded =
        fun _ => .succeeded := Function.update_eq_self _ _
    rw [hsame] at hpair'
    refine ⟨ls ++ ms, db', passes', _, System.run_append.mpr ⟨_, hrun, hround⟩, hpair', ?_, ?_⟩
    · simp only [if_true]
      push_cast
      omega
    · simp only [Bool.true_eq_false, if_false]
      omega

/-- `k` claims of tenant `b` while the item of `a` waits. -/
theorem rounds_past_waiting (k : ℕ) {db : Db Unit} {d : Bool → Int} {status : Bool → Status}
    (passes : String → ℕ) (hpair : Pair db d status) (hwaits : status false = .queued)
    (hterminal : (status true).terminal = true) (hgap : d false + 2 * k ≤ d true) :
    ∃ ls db' passes', ((queueSystem Unit).monitor countPasses).run (db, passes) ls =
        some (db', passes') ∧ passes' "a" = passes "a" + k := by
  induction k generalizing db d status passes with
  | zero => exact ⟨[], db, passes, rfl, rfl⟩
  | succ k ih =>
    have hlt : d false < d true := by
      push_cast at hgap
      omega
    obtain ⟨ms, db₁, passes₁, hround, hpassed, hpair₁⟩ :=
      hpair.round true hterminal (fun _ => hlt) passes
    have hcount : passes₁ "a" = passes "a" + 1 := hpassed hwaits
    have hwaits₁ : Function.update status true .succeeded false = .queued := by
      rw [Function.update_of_ne (by decide)]
      exact hwaits
    have hterminal₁ : (Function.update status true .succeeded true).terminal = true := by
      rw [Function.update_self]
      rfl
    obtain ⟨ls, db₂, passes₂, hrun, hpasses⟩ := ih passes₁ hpair₁ hwaits₁ hterminal₁ (by
      simp only [Bool.false_eq_true, if_false, if_true]
      push_cast at hgap
      omega)
    exact ⟨ms ++ ls, db₂, passes₂, System.run_append.mpr ⟨_, hround, hrun⟩, by omega⟩

/-- Tenants `b` and `c` have older items than `q`, and no tenant can earn credit. -/
def cappedClaims : List (Request Unit) :=
  let cfg : Settings := { schedDeficitCap := 0 }
  let item (tenant runId : String) (stamp : Int) : Request Unit :=
    ⟨cfg, 0, .enqueue ⟨tenant, runId, "run", (), 0, 3, some stamp, some 0⟩ false⟩
  [item "b" "r1" 1, item "c" "r1" 2, item "b" "r2" 3, item "c" "r2" 4, item "q" "r" 5,
   ⟨cfg, 9, .claim "w" ⟨"b", "r1", "run"⟩⟩, ⟨cfg, 9, .claim "w" ⟨"c", "r1", "run"⟩⟩,
   ⟨cfg, 9, .claim "w" ⟨"b", "r2", "run"⟩⟩, ⟨cfg, 9, .claim "w" ⟨"c", "r2", "run"⟩⟩]

/-- No bound holds for all runs: neither on the deficit of a tenant that is long alone, nor on
the claims that pass it over afterwards. At the cap, where the order is that of `enqueued_at`, a
tenant is passed over more often than the deficits allow. -/
theorem lone_tenant_starves :
    (∀ low : Int, ∃ ls db passes,
      ((queueSystem Unit).monitor countPasses).run (Db.migrated Unit, fun _ => 0) ls =
        some (db, passes) ∧ db.deficit "a" < low) ∧
    (∀ bound : ℕ, ∃ ls db passes,
      ((queueSystem Unit).monitor countPasses).run (Db.migrated Unit, fun _ => 0) ls =
        some (db, passes) ∧ bound < passes "a") ∧
    (queueSystem Unit).check contended (Db.migrated Unit) cappedClaims = true ∧
    (((queueSystem Unit).monitor countPasses).run (Db.migrated Unit, fun _ => 0)
      cappedClaims).map (fun s => s.2 "q") = some 4 ∧ max 0 0 - lowest 0 < 4 := by
  refine ⟨?_, ?_, by decide +kernel, by decide +kernel, by decide⟩
  · intro low
    obtain ⟨ls, db, passes, d, hrun, hpair, hfalse, -⟩ := lone_rounds (1 - low).toNat
    have hdeficit : db.deficit "a" = d false := hpair.deficit false
    exact ⟨ls, db, passes, hrun, by omega⟩
  · intro bound
    obtain ⟨ls, db, passes, d, hrun, hpair, hfalse, htrue⟩ := lone_rounds (2 * bound + 3)
    obtain ⟨db₁, hserve, hpair₁⟩ := hpair.enqueue false rfl
    have hterminal : (Function.update (fun _ : Bool => Status.succeeded) false .queued
        true).terminal = true := rfl
    obtain ⟨ms, db₂, passes₂, hrun₂, hpasses⟩ :=
      rounds_past_waiting (bound + 1) passes hpair₁ (Function.update_self _ _ _) hterminal (by
        push_cast at hfalse ⊢
        omega)
    refine ⟨ls ++ ⟨{}, 0, .enqueue (pairItem false) true⟩ :: ms, db₂, passes₂, ?_, by omega⟩
    refine System.run_append.mpr ⟨_, hrun, System.run_cons.mpr ⟨(db₁, passes), ?_, hrun₂⟩⟩
    exact System.monitor_step.mpr ⟨hserve, rfl⟩

end Recertia.Queue
