import Recertia.Lib.DeficitRoundRobin
import Recertia.Queue.Invariant

/-! The deficits of the tenants, and how often a waiting tenant is passed over. -/
namespace Recertia.Queue
open Transition DeficitRoundRobin
variable {P : Type*}

/-- The row that a call claims. -/
def Db.claimed (db : Db P) (r : Request P) : Option Key :=
  match r.call with
  | .claim worker pick => ((db.claimOne r.cfg r.now worker pick).bind Prod.snd).map Claim.key
  | _ => none

/-- The tenant has a due item in the queue and is below its limit. -/
def Db.waits (db : Db P) (now : Int) (tenant : String) : Bool :=
  (db.candidates now).any fun row => row.1.tenant = tenant

/-- Counts for each tenant the claims that have passed it over since its own last claim. -/
def countPasses (before : Db P) (r : Request P) (_ : Db P) (passes : String → ℕ) : String → ℕ :=
  match before.claimed r with
  | none => passes
  | some key => fun tenant =>
    if tenant = key.tenant then 0
    else if before.waits r.now tenant then passes tenant + 1
    else passes tenant

/-- A claim that no other tenant competes for takes a tenant that is not in debt. -/
def contended (db : Db P) (r : Request P) : Bool :=
  match db.claimed r with
  | none => true
  | some key => 0 ≤ db.deficit key.tenant ||
      (db.candidates r.now).any fun row => row.1.tenant ≠ key.tenant

/-- A claim passes over nobody whose credit has reached the cap. -/
def credited (cap : Int) (db : Db P) (r : Request P) : Bool :=
  match db.claimed r with
  | none => true
  | some key => r.cfg.schedDeficitCap = cap &&
      (db.candidates r.now).all fun row =>
        row.1.tenant = key.tenant || db.deficit row.1.tenant < cap

/-! What a call does to `tenant_sched` -/

/-- The row of a tenant stays, or comes in as `_ensure_tenant` writes it. -/
def SchedKept (db after : Db P) : Prop :=
  ∀ tenant, after.tenantSched.get? tenant = db.tenantSched.get? tenant ∨
    db.tenantSched.get? tenant = none ∧
      after.tenantSched.get? tenant = some { deficit := 0, weight := 1 }

theorem schedKept_same {db after : Db P} (h : after.tenantSched = db.tenantSched) :
    SchedKept db after := fun tenant => Or.inl (by rw [h])

theorem schedKept_ensureTenant (cfg : Settings) (ident : String) {db after : Db P}
    (h : after.tenantSched = (db.ensureTenant cfg ident).tenantSched) : SchedKept db after := by
  intro tenant
  rw [h]
  show (db.tenantSched.insertOrIgnore ident _).get? tenant = _ ∨ _ ∧
    (db.tenantSched.insertOrIgnore ident _).get? tenant = _
  rw [Table.get?_insertOrIgnore]
  by_cases ht : tenant = ident
  · rw [if_pos ht, ht]
    cases db.tenantSched.get? ident with
    | none => exact Or.inr ⟨rfl, rfl⟩
    | some sched => exact Or.inl rfl
  · rw [if_neg ht]
    exact Or.inl rfl

theorem schedKept_enqueue (cfg : Settings) (now : Int) (item : QueueItem P)
    (replaceTerminal : Bool) (db : Db P) :
    SchedKept db (db.enqueue cfg now item replaceTerminal).1 := by
  rcases enqueue_cases cfg now item replaceTerminal db with
    ⟨e, -, hdb | hdb⟩ | ⟨db', hput, hok⟩
  · rw [hdb]
    exact schedKept_same rfl
  · rw [hdb]
    exact schedKept_ensureTenant cfg item.tenantId rfl
  · rw [hok]
    apply schedKept_ensureTenant cfg item.tenantId
    rcases put_ok hput with ⟨-, rfl⟩ | ⟨old, -, -, -, rfl⟩ <;> rfl

theorem foldl_reapOrphan_tenantSched (now : Int) (orphans : List Orphan) (db : Db P) :
    (orphans.foldl (fun db orphan => db.reapOrphan now orphan) db).tenantSched =
      db.tenantSched := by
  induction orphans generalizing db with
  | nil => rfl
  | cons orphan orphans ih => exact ih (db.reapOrphan now orphan)

/-- A call takes the picked row and pays for it, or leaves the deficits alone. -/
theorem serve_sched {db after : Db P} {r : Request P} (h : db.serve r = some after) :
    (∃ worker pick row, db.claimed r = some pick ∧ db.runQueue.get? pick = some row ∧
      db.picks r.now (pick, row) = true ∧ after = db.take r.cfg r.now worker pick) ∨
    db.claimed r = none ∧ SchedKept db after := by
  unfold Db.serve at h
  cases hcall : r.call with
  | claim worker pick =>
    rw [hcall] at h
    obtain ⟨result, hclaim, rfl⟩ := Option.map_eq_some_iff.mp h
    rcases claimOne_cases hclaim with rfl | ⟨row, hrow, hpicks, htake, hresult⟩
    · exact Or.inr ⟨by simp [Db.claimed, hcall, hclaim], schedKept_same rfl⟩
    · refine Or.inl ⟨worker, pick, row, ?_, hrow, hpicks, htake⟩
      simp [Db.claimed, hcall, hclaim, hresult]
  | enqueue item replaceTerminal =>
    rw [hcall] at h
    cases h
    exact Or.inr ⟨by simp [Db.claimed, hcall], schedKept_enqueue _ _ _ _ _⟩
  | markRunning claim | finish claim status errorCode =>
    rw [hcall] at h
    cases h
    refine Or.inr ⟨by simp [Db.claimed, hcall], schedKept_same ?_⟩
    show (db.transition r.now claim _ _ _).1.tenantSched = db.tenantSched
    rw [transition_fst]
  | requeue claim delay errorCode =>
    rw [hcall] at h
    cases h
    refine Or.inr ⟨by simp [Db.claimed, hcall], schedKept_same ?_⟩
    rw [requeue_fst]
  | requestCancel tenant runId kind =>
    rw [hcall] at h
    cases h
    refine Or.inr ⟨by simp [Db.claimed, hcall], schedKept_same ?_⟩
    unfold Db.requestCancel
    split <;> rfl
  | reconcileOrphans alive =>
    rw [hcall] at h
    cases h
    exact Or.inr ⟨by simp [Db.claimed, hcall],
      schedKept_same (foldl_reapOrphan_tenantSched _ _ _)⟩
  | readLimits tenant =>
    rw [hcall] at h
    cases h
    refine Or.inr ⟨by simp [Db.claimed, hcall], ?_⟩
    cases tenantId tenant with
    | none => exact schedKept_same rfl
    | some ident => exact schedKept_ensureTenant r.cfg ident rfl
  | setMaxInFlight tenant maxInFlight =>
    rw [hcall] at h
    cases h
    refine Or.inr ⟨by simp [Db.claimed, hcall], ?_⟩
    unfold Db.setMaxInFlight
    split
    · exact schedKept_same rfl
    · exact schedKept_ensureTenant r.cfg _ rfl
  | heartbeatClaim | registerWorker | heartbeatWorker | setMaintenance =>
    rw [hcall] at h
    cases h
    exact Or.inr ⟨by simp [Db.claimed, hcall], schedKept_same rfl⟩

theorem SchedKept.deficit {db after : Db P} (h : SchedKept db after) (tenant : String) :
    after.deficit tenant = db.deficit tenant := by
  unfold Db.deficit
  rcases h tenant with hsame | ⟨hnone, hnew⟩
  · rw [hsame]
  · rw [hnone, hnew]

theorem get?_take_sched (cfg : Settings) (now : Int) (worker : String) (pick : Key) (db : Db P)
    (tenant : String) :
    (db.take cfg now worker pick).tenantSched.get? tenant =
      (db.tenantSched.get? tenant).map fun sched =>
        if tenant = pick.tenant then
          { sched with deficit := sched.deficit - 1, lastClaimAt := some now }
        else
          { sched with deficit := min (sched.deficit + sched.weight) cfg.schedDeficitCap } := by
  unfold Db.take
  dsimp only
  rw [Table.get?_update, Table.get?_update, Option.map_map]
  apply congrArg (fun f => Option.map f (db.tenantSched.get? tenant))
  funext sched
  by_cases ht : tenant = pick.tenant <;> simp [ht]

/-! The bounds -/

/-- The lower bound on deficits. -/
def lowest (cap : Int) : Int := min (cap - 1) (-1)

structure Fair (cap : Int) (s : Db P × (String → ℕ)) : Prop where
  weights : ∀ tenant sched, s.1.tenantSched.get? tenant = some sched → sched.weight = 1
  level : Level (lowest cap + 1) s.1.deficit
  le : ∀ tenant, s.1.deficit tenant ≤ max 0 cap
  lifted : Lifted cap (lowest cap) s.1.deficit s.2

def Db.present (db : Db P) (tenant : String) : Prop := db.tenantSched.get? tenant ≠ none

theorem deficit_absent {db : Db P} {tenant : String} (h : ¬ db.present tenant) :
    db.deficit tenant = 0 := by
  unfold Db.deficit
  rw [not_not.mp h]

/-- A claim is a round of deficit round robin. -/
theorem round_take {cfg : Settings} {now : Int} {worker : String} {pick : Key} {db : Db P}
    (hweights : ∀ tenant sched, db.tenantSched.get? tenant = some sched → sched.weight = 1)
    (hpick : db.present pick.tenant) :
    Round cfg.schedDeficitCap (fun _ => 1) db.present pick.tenant db.deficit
      (db.take cfg now worker pick).deficit := by
  constructor
  · obtain ⟨sched, hsched⟩ := Option.ne_none_iff_exists'.mp hpick
    simp only [Db.deficit, get?_take_sched, hsched, Option.map_some, if_true]
  · intro tenant hpresent hne
    obtain ⟨sched, hsched⟩ := Option.ne_none_iff_exists'.mp hpresent
    simp only [Db.deficit, get?_take_sched, hsched, Option.map_some, if_neg hne,
      hweights tenant sched hsched]
  · intro tenant habsent hne
    have hnone : db.tenantSched.get? tenant = none := not_not.mp habsent
    simp only [Db.deficit, get?_take_sched, hnone, Option.map_none]

theorem mem_candidates {db : Db P} {now : Int} {row : Key × Row P} :
    row ∈ db.candidates now ↔
      row ∈ db.runQueue.rows ∧ db.claimable now row.1 row.2 = true := by
  simp only [Db.candidates, List.mem_filter]

theorem present_of_candidate {db : Db P} {now : Int} {row : Key × Row P}
    (h : row ∈ db.candidates now) : db.present row.1.tenant := by
  obtain ⟨-, -, ⟨sched, hsched⟩, -⟩ := claimable_iff.mp (mem_candidates.mp h).2
  unfold Db.present
  rw [hsched]
  exact Option.some_ne_none sched

theorem deficit_le_of_sortsUpTo {db : Db P} {a b : Key × Row P} (h : db.sortsUpTo a b = true) :
    db.deficit b.1.tenant ≤ db.deficit a.1.tenant := by
  unfold Db.sortsUpTo at h
  simp only [Bool.or_eq_true, Bool.and_eq_true, decide_eq_true_eq] at h
  omega

theorem fair_step {cap : Int} {s t : Db P × (String → ℕ)} {r : Request P}
    (hfair : Fair cap s)
    (hstep : ((queueSystem P).monitor countPasses).step s r = some t)
    (hcontended : contended s.1 r = true) (hcredited : credited cap s.1 r = true) :
    Fair cap t := by
  obtain ⟨hserve, hpasses⟩ := System.monitor_step.mp hstep
  rcases serve_sched hserve with ⟨worker, pick, row, hclaimed, hrow, hpicks, htake⟩ |
    ⟨hclaimed, hkept⟩
  · -- A claim: the condition says where its winner stands and who is passed over.
    simp only [contended, hclaimed, Bool.or_eq_true, decide_eq_true_eq,
      List.any_eq_true] at hcontended
    simp only [credited, hclaimed, Bool.and_eq_true, Bool.or_eq_true, decide_eq_true_eq,
      List.all_eq_true] at hcredited
    obtain ⟨hcap, hroom⟩ := hcredited
    obtain ⟨hclaimable, hbest⟩ := picks_iff.mp hpicks
    have hcandidate : (pick, row) ∈ s.1.candidates r.now :=
      mem_candidates.mpr ⟨Table.get?_eq_some.mp hrow, hclaimable⟩
    have hround : Round cap (fun _ => 1) s.1.present pick.tenant s.1.deficit t.1.deficit := by
      rw [htake, ← hcap]
      exact round_take hfair.weights (present_of_candidate hcandidate)
    have hzero : ∀ tenant, ¬ s.1.present tenant → lowest cap + 1 ≤ s.1.deficit tenant := by
      intro tenant habsent
      rw [deficit_absent habsent, lowest]
      omega
    refine ⟨?_, ?_, ?_, ?_⟩
    · intro tenant sched hsched
      rw [htake, get?_take_sched] at hsched
      obtain ⟨old, hold, rfl⟩ := Option.map_eq_some_iff.mp hsched
      have hweight := hfair.weights tenant old hold
      split <;> exact hweight
    · apply hfair.level.round hround (by rw [lowest]; omega) (fun _ => le_refl 1) hzero
      rcases hcontended with hcredit | ⟨other, hother, hne⟩
      · left
        rw [lowest]
        omega
      · exact Or.inr ⟨other.1.tenant, hne, deficit_le_of_sortsUpTo (hbest other hother)⟩
    · exact hround.le (le_max_right 0 cap) hfair.le
    · have hcount : ∀ tenant, t.2 tenant = if tenant = pick.tenant then 0
          else if s.1.waits r.now tenant then s.2 tenant + 1 else s.2 tenant := by
        intro tenant
        rw [hpasses, countPasses, hclaimed]
      refine hfair.lifted.round (fun tenant => s.1.waits r.now tenant = true) hround
        (fun _ => le_refl 1) ?_ ?_ ?_ ?_ ?_
      · intro tenant
        have hle := hfair.level.le tenant
        omega
      · intro tenant hwaits hne
        obtain ⟨other, hother, htenant⟩ := List.any_eq_true.mp hwaits
        have heq : other.1.tenant = tenant := of_decide_eq_true htenant
        subst heq
        exact ⟨present_of_candidate hother, (hroom other hother).resolve_left hne⟩
      · rw [hcount, if_pos rfl]
      · intro tenant hne hwaits
        rw [hcount, if_neg hne, if_pos hwaits]
      · intro tenant hne hwaits
        rw [hcount, if_neg hne, if_neg hwaits]
  · have hdeficit : t.1.deficit = s.1.deficit := funext hkept.deficit
    have hsame : t.2 = s.2 := by
      rw [hpasses, countPasses, hclaimed]
    refine ⟨?_, hdeficit ▸ hfair.level, hdeficit ▸ hfair.le, ?_⟩
    · intro tenant sched hsched
      rcases hkept tenant with heq | ⟨-, hnew⟩
      · exact hfair.weights tenant sched (heq ▸ hsched)
      · rw [hnew] at hsched
        cases hsched
        rfl
    · rw [hdeficit, hsame]
      exact hfair.lifted

theorem fair_migrated (cap : Int) : Fair cap (Db.migrated P, fun _ => 0) where
  weights tenant sched h := by cases h
  level := by
    constructor
    · intro tenant
      show lowest cap + 1 - 1 ≤ 0
      rw [lowest]
      omega
    · intro tenant other h
      have hzero : (0 : Int) < lowest cap + 1 := h
      rw [lowest] at hzero
      omega
  le tenant := le_max_left 0 cap
  lifted tenant := Or.inl rfl

/-- In every run whose claims are contended and credited, the deficits stay between bounds that
its length does not enter, and so do the claims that pass a waiting tenant over. -/
theorem contended_claims_fair (cap : Int) {ls : List (Request P)} {db : Db P}
    {passes : String → ℕ}
    (hrun : ((queueSystem P).monitor countPasses).run (Db.migrated P, fun _ => 0) ls =
      some (db, passes))
    (hguard : (queueSystem P).Along (fun db r _ => (contended db r && credited cap db r) = true)
      (Db.migrated P) ls) :
    ∀ tenant, lowest cap ≤ db.deficit tenant ∧ db.deficit tenant ≤ max 0 cap ∧
      (passes tenant : Int) ≤ max 0 cap - lowest cap := by
  have hfair : Fair cap (db, passes) := by
    refine System.run_invariant_along (fun s r t hfair hstep hg => ?_) (fair_migrated cap)
      (System.along_monitor (P := fun db r _ => (contended db r && credited cap db r) = true)
        hguard) hrun
    obtain ⟨hcontended, hcredited⟩ := Bool.and_eq_true_iff.mp hg
    exact fair_step hfair hstep hcontended hcredited
  intro tenant
  have hlow : lowest cap ≤ db.deficit tenant := by
    have hle : lowest cap + 1 - 1 ≤ db.deficit tenant := hfair.level.le tenant
    omega
  have hhigh : db.deficit tenant ≤ max 0 cap := hfair.le tenant
  refine ⟨hlow, hhigh, ?_⟩
  rcases hfair.lifted tenant with hzero | ⟨hle, hlift⟩
  · have hzero' : passes tenant = 0 := hzero
    rw [hzero']
    push_cast
    omega
  · have hlift' : lowest cap + passes tenant ≤ db.deficit tenant := hlift
    have hle' : db.deficit tenant ≤ cap := hle
    omega

/-- Both tenants have an item when `a` is claimed; `b` has earned a unit when it is. -/
def twoClaims : List (Request Unit) :=
  [⟨{}, 0, .enqueue ⟨"a", "r", "run", (), 0, 3, none, none⟩ false⟩,
   ⟨{}, 1, .enqueue ⟨"b", "r", "run", (), 0, 3, none, none⟩ false⟩,
   ⟨{}, 2, .claim "w" ⟨"a", "r", "run"⟩⟩, ⟨{}, 3, .claim "w" ⟨"b", "r", "run"⟩⟩]

theorem contended_claims_fair_two : ∃ db passes,
    ((queueSystem Unit).monitor countPasses).run (Db.migrated Unit, fun _ => 0) twoClaims =
      some (db, passes) ∧ ∀ tenant, lowest 1000 ≤ db.deficit tenant ∧
      db.deficit tenant ≤ max 0 1000 ∧ (passes tenant : Int) ≤ max 0 1000 - lowest 1000 := by
  have hends : (((queueSystem Unit).monitor countPasses).run (Db.migrated Unit, fun _ => 0)
      twoClaims).isSome = true := by
    decide +kernel
  obtain ⟨⟨db, passes⟩, hrun⟩ := Option.isSome_iff_exists.mp hends
  exact ⟨db, passes, hrun,
    contended_claims_fair 1000 hrun (System.along_of_check (by decide +kernel))⟩

end Recertia.Queue
