import Recertia.Quota.JobRunner

/-! Runs of job runners: admission by the own week, and how often a hex job of a class is run. -/
namespace Recertia.Quota

open Transition SpentQuota

/-- The amounts of all reservations of a week, whatever became of them. -/
def QuotaDb.everHeld (db : QuotaDb) (tenant week : String) (c : Counter) : ℕ :=
  db.total .reserved tenant week c + db.total .settled tenant week c +
    db.total .released tenant week c

theorem everHeld_reserve {quota : JobQuota} {db t : QuotaDb} {tenant id : String} {req : Request}
    (ht : db.reserve quota tenant id req = some t) (tn w : String) (c : Counter) :
    t.everHeld tn w c = db.everHeld tn w c +
      if tenant = tn ∧ req.week = w then req.amounts.get c else 0 := by
  unfold QuotaDb.everHeld
  rw [reserve_total ht, reserve_total ht, reserve_total ht]
  simp only [reduceCtorEq, and_false, if_false, and_true]
  omega

theorem everHeld_finish (db : QuotaDb) (tenant id : String) (settle : Bool) (tn w : String)
    (c : Counter) : (db.finish tenant id settle).everHeld tn w c = db.everHeld tn w c := by
  obtain hdone | ⟨row, hrow, hstatus⟩ := finish_cases db tenant id
  · rw [finish_of_done hdone]
  · have hreserved := finish_total settle hrow hstatus .reserved tn w c
    have hsettled := finish_total settle hrow hstatus .settled tn w c
    have hreleased := finish_total settle hrow hstatus .released tn w c
    unfold QuotaDb.everHeld
    cases settle <;>
      simp only [LedgerRow.done, reduceCtorEq, and_false, and_true, if_false, if_true,
        Bool.false_eq_true] at hreserved hsettled hreleased <;> omega

theorem everHeld_releaseExpired (db : QuotaDb) (tenant : String) (ttl : ℕ) (now : Int)
    (tn w : String) (c : Counter) :
    (db.releaseExpired tenant ttl now).everHeld tn w c = db.everHeld tn w c := by
  unfold QuotaDb.releaseExpired
  generalize db.ledger.rows.filter _ = rows
  induction rows generalizing db with
  | nil => rfl
  | cons row rows ih =>
    rw [List.foldl_cons]
    split
    · rw [ih]
      exact everHeld_finish db tenant row.1.2 false tn w c
    · exact ih db

/-- The reservation, if it is still one, holds no hex job of a class. -/
def QuotaDb.Slotless (db : QuotaDb) (tenant id : String) : Prop :=
  ∀ row, db.ledger.get? (tenant, id) = some row → row.status = .reserved →
    row.amounts.classSlot = none

theorem slotless_finish {db : QuotaDb} {tenant id : String} (h : db.Slotless tenant id)
    (other : String) (settle : Bool) : (db.finish tenant other settle).Slotless tenant id := by
  obtain hdone | ⟨row, hrow, hstatus⟩ := finish_cases db tenant other
  · rw [finish_of_done hdone]
    exact h
  · intro r hr hreserved
    rw [finish_get? hrow hstatus] at hr
    split at hr
    · rw [← Option.some.inj hr] at hreserved
      cases settle <;> cases hreserved
    · exact h r hr hreserved

/-- What is settled, or holds no hex job of a class, gives none back. -/
theorem released_finish {db : QuotaDb} {tenant id : String} {settle : Bool}
    (h : settle = false → db.Slotless tenant id) (tn w cls : String) :
    (db.finish tenant id settle).total .released tn w (.hexJobs cls) =
      db.total .released tn w (.hexJobs cls) := by
  obtain hdone | ⟨row, hrow, hstatus⟩ := finish_cases db tenant id
  · rw [finish_of_done hdone]
  · have htotal := finish_total settle hrow hstatus .released tn w (.hexJobs cls)
    cases settle with
    | true => simpa [LedgerRow.done] using htotal
    | false =>
      have hslot : row.amounts.classSlot = none := h rfl row hrow hstatus
      simpa [Amounts.get, hslot] using htotal

theorem released_releaseExpired {db : QuotaDb} {tenant : String} {ttl : ℕ} {now : Int}
    (h : ∀ id row, db.ledger.get? (tenant, id) = some row → now - row.createdAt ≥ ttl * 1000000 →
      db.Slotless tenant id) (w cls : String) :
    (db.releaseExpired tenant ttl now).total .released tenant w (.hexJobs cls) =
      db.total .released tenant w (.hexJobs cls) := by
  unfold QuotaDb.releaseExpired
  have hrows : ∀ row ∈ db.ledger.rows.filter fun row =>
      row.1.1 = tenant && row.2.status = .reserved,
      now - row.2.createdAt ≥ ttl * 1000000 → db.Slotless tenant row.1.2 := by
    intro row hrow hold
    obtain ⟨hmem, hcond⟩ := List.mem_filter.mp hrow
    have htenant : row.1.1 = tenant := of_decide_eq_true (Bool.and_eq_true_iff.mp hcond).1
    have hkey : row.1 = (tenant, row.1.2) := Prod.ext htenant rfl
    exact h row.1.2 row.2 (Table.get?_eq_some.mpr (hkey ▸ hmem)) hold
  generalize db.ledger.rows.filter _ = rows at hrows ⊢
  clear h
  induction rows generalizing db with
  | nil => rfl
  | cons row rows ih =>
    rw [List.foldl_cons]
    split
    · rename_i hold
      have hrest := @ih (db.finish tenant row.1.2 false) fun r hr hr' =>
        slotless_finish (hrows r (List.mem_cons_of_mem _ hr) hr') _ _
      exact hrest.trans (released_finish (fun _ => hrows row List.mem_cons_self hold) tenant w cls)
    · exact ih fun r hr => hrows r (List.mem_cons_of_mem _ hr)

theorem released_reserve {quota : JobQuota} {db t : QuotaDb} {tenant id : String} {req : Request}
    (ht : db.reserve quota tenant id req = some t) (tn w : String) (c : Counter) :
    t.total .released tn w c = db.total .released tn w c := by
  rw [reserve_total ht, if_neg fun hall => Status.noConfusion hall.2.2, Nat.add_zero]

theorem snapshot_caps (db : QuotaDb) (tenant week : String) (base : SpentQuota) :
    (db.snapshot tenant week base).toJobQuota = base.toJobQuota := by
  unfold QuotaDb.snapshot
  split <;> rfl

section Runs
variable (quota : JobQuota) (tenant : String) (ttl : ℕ)

/-- A job that starts in a week with a row, or in a runner with nothing spent; and a practice hex
job with tokens, of no class that is the empty text, and whose reservation is not given back. -/
def Healthy (s : JobPlane) : PlaneMove → Prop
  | .run r job =>
    ((s.db.weeks.get? (tenant, job.req.week)).isSome ∨ (s.runners r).quota.Unspent) ∧
      (job.req.priority = .practiceHex → job.tokens ≠ 0 ∧ job.req.taskClass ≠ some "") ∧
      ∀ id row, s.db.ledger.get? (tenant, id) = some row →
        job.now - row.createdAt ≥ ttl * 1000000 → s.db.Slotless tenant id
  | .finish r _ done =>
    done = false → ∀ id, (s.runners r).active = some (some id) → s.db.Slotless tenant id
  | .start .. => True

/-- The decision that the own week of a job makes, on a quota that has nothing else spent. -/
def JobPlane.ownWeekAdmits (s : JobPlane) (r : ℕ) (job : JobRequest) : Bool :=
  (((s.refreshed tenant ttl r job).1.weekRow tenant job.req.week).fold quota).canAdmit
    job.req.priority job.req.taskClass job.tokens

/-- The weeks count what the ledger does, the runners have the caps of the policy, and a practice
hex job that has been run has a reservation, which it keeps. -/
structure PlaneInv (s : JobPlane) : Prop where
  accounted : s.db.Accounted fun _ => quota
  caps : ∀ r, (s.runners r).quota.toJobQuota = quota
  run : ∀ cls week, s.hexJobsRun.count (some cls, week) =
    s.db.everHeld tenant week (.hexJobs cls)
  kept : ∀ cls week, s.db.total .released tenant week (.hexJobs cls) = 0

variable {quota tenant}

theorem initial_planeInv : PlaneInv quota tenant (.initial quota) where
  accounted := empty_accounted _
  caps := fun _ => rfl
  run := fun _ _ => rfl
  kept := fun _ _ => rfl

/-- A new quota of a runner keeps the invariant, and with it any database that accounts alike. -/
theorem PlaneInv.update {s : JobPlane} (h : PlaneInv quota tenant s) {db : QuotaDb} {r : ℕ}
    {runner : Runner} (haccounted : db.Accounted fun _ => quota)
    (hcaps : runner.quota.toJobQuota = quota)
    (hheld : ∀ w c, db.everHeld tenant w c = s.db.everHeld tenant w c)
    (hkept : ∀ w cls, db.total .released tenant w (.hexJobs cls) =
      s.db.total .released tenant w (.hexJobs cls)) :
    PlaneInv quota tenant
      { s with db := db, runners := Function.update s.runners r runner } where
  accounted := haccounted
  caps := fun r' => by
    dsimp only
    rw [Function.update_apply]
    split
    · exact hcaps
    · exact h.caps r'
  run := fun cls week => (h.run cls week).trans (hheld week _).symm
  kept := fun cls week => (hkept week cls).trans (h.kept cls week)

theorem refreshed_caps {s : JobPlane} (h : PlaneInv quota tenant s) (r : ℕ) (job : JobRequest) :
    (s.refreshed tenant ttl r job).2.toJobQuota = quota :=
  (snapshot_caps _ _ _ _).trans (h.caps r)

theorem refreshed_accounted (hfits : quota.Fits) {s : JobPlane} (h : PlaneInv quota tenant s) (r : ℕ)
    (job : JobRequest) : (s.refreshed tenant ttl r job).1.Accounted fun _ => quota :=
  (serve_step (fun _ => hfits) s.db (.releaseExpired tenant ttl job.now)).1 h.accounted

/-- A job that is let run without a reservation has no tokens; any other has one. -/
theorem admitted_cases {s : JobPlane} {r : ℕ} {job : JobRequest} {db : QuotaDb}
    {reservation : Option String}
    (h : s.admitted tenant ttl r job = some (db, reservation)) :
    (job.tokens = 0 ∧ db = (s.refreshed tenant ttl r job).1 ∧ reservation = none) ∨
      (job.tokens ≠ 0 ∧ (s.refreshed tenant ttl r job).1.reserve
        (s.refreshed tenant ttl r job).2.toJobQuota tenant job.id job.req = some db) := by
  unfold JobPlane.admitted at h
  dsimp only at h
  split at h
  · cases h
  · split at h
    · cases h
    · split at h
      · rename_i hzero
        obtain ⟨rfl, rfl⟩ := Prod.mk.inj (Option.some.inj h)
        exact .inl ⟨hzero, rfl, rfl⟩
      · rename_i hsome
        obtain ⟨t, ht, heq⟩ := Option.map_eq_some_iff.mp h
        rw [← (Prod.mk.inj heq).1]
        exact .inr ⟨hsome, ht⟩

/-- A job that is run keeps the invariant, if it is a healthy one. -/
theorem begin_planeInv (hfits : quota.Fits) {s : JobPlane} (h : PlaneInv quota tenant s) {r : ℕ}
    {job : JobRequest} (hhealthy : Healthy tenant ttl s (.run r job)) :
    PlaneInv quota tenant (s.begin tenant ttl r job) := by
  have haccounted := refreshed_accounted ttl hfits h r job
  have hcaps := refreshed_caps ttl h r job
  have hheld : ∀ w c, (s.refreshed tenant ttl r job).1.everHeld tenant w c =
      s.db.everHeld tenant w c := fun w c =>
    everHeld_releaseExpired s.db tenant ttl job.now tenant w c
  have hkept : ∀ w cls, (s.refreshed tenant ttl r job).1.total .released tenant w (.hexJobs cls) =
      s.db.total .released tenant w (.hexJobs cls) := released_releaseExpired hhealthy.2.2
  unfold JobPlane.begin
  dsimp only
  cases hadmitted : s.admitted tenant ttl r job with
  | none => exact h.update haccounted hcaps hheld hkept
  | some started =>
    obtain ⟨db, reservation⟩ := started
    dsimp only
    obtain ⟨hzero, rfl, -⟩ | ⟨hsome, ht⟩ := admitted_cases ttl hadmitted
    · have hother : job.req.priority ≠ .practiceHex := fun hhex => (hhealthy.2.1 hhex).1 hzero
      rw [if_neg hother]
      exact h.update haccounted hcaps hheld hkept
    · rw [hcaps] at ht
      refine ⟨accounted_reserve haccounted (fun _ => hfits) ht, fun r' => ?_, fun cls week => ?_,
        fun cls week => ?_⟩
      · dsimp only
        rw [Function.update_apply]
        split
        · exact hcaps
        · exact h.caps r'
      · dsimp only
        rw [everHeld_reserve ht, hheld, ← h.run]
        split
        · rename_i hhex
          have hslot : job.req.amounts.classSlot = job.req.taskClass := by
            simp only [Request.amounts, if_pos hhex]
            cases hcls : job.req.taskClass with
            | none => rfl
            | some c =>
              have hne : c ≠ "" := fun heq => (hhealthy.2.1 hhex).2 (heq ▸ hcls)
              simp [hne]
          rw [List.count_cons, Amounts.get, hslot]
          congr 1
          simp only [beq_iff_eq, Prod.mk.injEq, true_and]
          by_cases hweek : job.req.week = week <;> by_cases hcls : job.req.taskClass = some cls <;>
            simp [hweek, hcls]
        · rename_i hother
          simp [Amounts.get, Request.amounts, hother]
      · exact (released_reserve ht _ _ _).trans ((hkept week cls).trans (h.kept cls week))

theorem finish_planeInv (hfits : quota.Fits) {s : JobPlane} (h : PlaneInv quota tenant s) (r : ℕ)
    (week : String) (done : Bool) (reservation : Option String)
    (hslot : done = false → ∀ id, reservation = some id → s.db.Slotless tenant id) :
    PlaneInv quota tenant (s.finish tenant r week done reservation) := by
  cases reservation with
  | none => exact h.update h.accounted (h.caps r) (fun _ _ => rfl) fun _ _ => rfl
  | some id =>
    refine h.update (accounted_finish (fun _ => hfits) h.accounted tenant id done) ?_
      (fun w c => everHeld_finish s.db tenant id done tenant w c)
      fun w cls => released_finish (fun hdone => hslot hdone id rfl) tenant w cls
    exact (snapshot_caps _ _ _ _).trans (h.caps r)

theorem step_planeInv (hfits : quota.Fits) {s t : JobPlane} {move : PlaneMove}
    (h : PlaneInv quota tenant s) (ht : (jobPlane tenant ttl quota).step s move = some t)
    (hhealthy : Healthy tenant ttl s move) : PlaneInv quota tenant t := by
  cases move with
  | start r week =>
    cases ht
    exact h.update h.accounted (snapshot_caps _ _ _ _) (fun _ _ => rfl) fun _ _ => rfl
  | run r job =>
    simp only [jobPlane] at ht
    split at ht
    · cases ht
    · cases ht
      exact begin_planeInv ttl hfits h hhealthy
  | finish r week done =>
    obtain ⟨reservation, hactive, rfl⟩ := Option.map_eq_some_iff.mp ht
    exact finish_planeInv hfits h r week done reservation fun hdone id hid =>
      hhealthy hdone id (hid ▸ hactive)

theorem canAdmit_congr {q q' : SpentQuota} {row : WeekRow} (hq : Mirrors q quota row)
    (hq' : Mirrors q' quota row) (job : JobPriority) (taskClass : Option String) (tokens : ℕ) :
    q.canAdmit job taskClass tokens = q'.canAdmit job taskClass tokens := by
  rw [Bool.eq_iff_iff, canAdmit_iff, canAdmit_iff]
  simp only [SpentQuota.Left, hq.spent, hq'.spent, hq.caps, hq'.caps]

/-- The row of a week stays where reservations expire. -/
theorem refreshed_week {s : JobPlane} (r : ℕ) (job : JobRequest) (k : String × String)
    (h : (s.db.weeks.get? k).isSome) :
    ((s.refreshed tenant ttl r job).1.weeks.get? k).isSome := by
  simp only [JobPlane.refreshed, QuotaDb.releaseExpired]
  generalize s.db.ledger.rows.filter _ = rows
  generalize s.db = db at h ⊢
  induction rows generalizing db with
  | nil => exact h
  | cons row rows ih =>
    rw [List.foldl_cons]
    apply ih
    split
    · unfold QuotaDb.release QuotaDb.finish
      split
      · exact h
      · split
        · exact h
        · rw [Table.get?_update, Option.isSome_map]
          exact h
    · exact h

/-- A healthy job is run exactly where its own week admits it. -/
theorem admitted_iff (hfits : quota.Fits) {s : JobPlane} (h : PlaneInv quota tenant s) {r : ℕ}
    {job : JobRequest} (hhealthy : Healthy tenant ttl s (.run r job))
    (hid : (tenant, job.id) ∉ (s.refreshed tenant ttl r job).1.ledger.keys) :
    (s.admitted tenant ttl r job).isSome ↔
      job.skip = false ∧ s.ownWeekAdmits quota tenant ttl r job = true := by
  have hmirrors : Mirrors (s.refreshed tenant ttl r job).2 quota
      ((s.refreshed tenant ttl r job).1.weekRow tenant job.req.week) := by
    have hweek : ((s.refreshed tenant ttl r job).1.weeks.get? (tenant, job.req.week)).isSome ∨
        (s.runners r).quota.Unspent := hhealthy.1.imp (refreshed_week ttl r job _) id
    have hsnapshot := snapshot_mirrors hweek
    rwa [h.caps] at hsnapshot
  rw [JobPlane.ownWeekAdmits, canAdmit_congr (fold_mirrors _ quota) hmirrors]
  unfold JobPlane.admitted
  dsimp only
  cases hskip : job.skip with
  | true => simp
  | false =>
    cases hadmit : (s.refreshed tenant ttl r job).2.canAdmit job.req.priority job.req.taskClass
        job.tokens with
    | false => simp
    | true =>
      by_cases hzero : job.tokens = 0
      · simp [hzero]
      · have hcap := fun c => (refreshed_accounted ttl hfits h r job).capped tenant job.req.week c
        have hheld := hold_of_canAdmit hfits hmirrors job.budget hcap hadmit
        have hpos : 0 ≤ job.req.tokens := by
          rw [job.budget]
          omega
        have hreserved : ((s.refreshed tenant ttl r job).1.reserve quota tenant job.id
            job.req).isSome := (reserve_isSome_iff hpos hid).mpr hheld
        rw [refreshed_caps ttl h r job]
        simp [hzero, hreserved]

/-- In every run of healthy jobs under caps that fit: a reservation succeeds exactly where
`can_admit` on the folded snapshot admits the request, unless that is at the edge; a job is run
exactly where its own week admits it; and the practice hex jobs that a class has run in a week are
within its cap. -/
theorem admissions_agree_over_runs (hfits : quota.Fits) {moves : List PlaneMove} {s : JobPlane}
    (hrun : (jobPlane tenant ttl quota).run (.initial quota) moves = some s)
    (hhealthy : (jobPlane tenant ttl quota).Along (fun s move _ => Healthy tenant ttl s move)
      (.initial quota) moves) :
    (∀ base req id, base.toJobQuota = quota → 0 ≤ req.tokens →
      (tenant, id) ∉ s.db.ledger.keys →
      ((s.db.weeks.get? (tenant, req.week)).isSome ∨ base.Unspent) →
      (((s.db.reserve quota tenant id req).isSome ↔ (s.db.snapshot tenant req.week base).canAdmit
        req.priority req.taskClass req.tokens.toNat = true) ↔
          ¬ AtEdge (s.db.snapshot tenant req.week base) req)) ∧
    (∀ r job, Healthy tenant ttl s (.run r job) →
      (tenant, job.id) ∉ (s.refreshed tenant ttl r job).1.ledger.keys →
      ((s.admitted tenant ttl r job).isSome ↔ job.skip = false ∧
        s.ownWeekAdmits quota tenant ttl r job = true)) ∧
    ∀ cls week, s.hexJobsRun.count (some cls, week) ≤ quota.maxHexJobsPerTaskClass := by
  have hinv : PlaneInv quota tenant s :=
    System.run_invariant_along (fun _ _ _ h ht hstep => step_planeInv ttl hfits h ht hstep)
      initial_planeInv hhealthy hrun
  refine ⟨fun base req id hbase htokens hid hweek => ?_, fun r job hjob hid => ?_,
    fun cls week => ?_⟩
  · have hmirrors := snapshot_mirrors hweek
    rw [hbase] at hmirrors
    rw [reserve_isSome_iff htokens hid]
    exact admissions_agree_iff hfits hmirrors (Int.toNat_of_nonneg htokens).symm
      fun c => hinv.accounted.capped tenant req.week c
  · exact admitted_iff ttl hfits hinv hjob hid
  · have hcap : (s.db.weekRow tenant week).spent (.hexJobs cls) +
        (s.db.weekRow tenant week).reserved (.hexJobs cls) ≤ quota.maxHexJobsPerTaskClass :=
      hinv.accounted.capped tenant week (.hexJobs cls)
    have hspent := hinv.accounted.spent tenant week (.hexJobs cls)
    have hreserved := hinv.accounted.reserved tenant week (.hexJobs cls)
    rw [hinv.run, QuotaDb.everHeld, hinv.kept]
    omega

end Runs

def tenTokens : JobQuota where
  weeklyTokenCap := 10
  hexCap := 10
  computerUseCap := 10

def jobOf (week : String) (priority : JobPriority) (tokens : ℕ) (taskClass : Option String)
    (id : String) : JobRequest where
  req := { week, job := "job", priority, tokens, taskClass, createdAt := 0 }
  tokens := tokens
  budget := rfl
  id := id
  now := 0

/-- A week's tokens spent at once. -/
def spentOut : List PlaneMove :=
  [.run 0 (jobOf "2026-W01" .recertifier 10 none "a"), .finish 0 "2026-W01" true]

def emptyRequest : Request where
  week := "2026-W01"
  job := "job"
  priority := .recertifier
  tokens := 0
  createdAt := 0

/-- A practice hex job without tokens, twice. -/
def freeHexTwice : List PlaneMove :=
  let move := PlaneMove.run 0 (jobOf "2026-W01" .practiceHex 0 (some "docs") "a")
  [move, .finish 0 "2026-W01" true, move]

def docsJob : JobRequest := jobOf "2026-W01" .practiceHex 4 (some "docs") "a"

/-- The state that the first job of a runner leads to. -/
def oneDocsJob : JobPlane := (JobPlane.initial tenTokens).begin "local" 3600 0 docsJob

theorem first_job_agrees : oneDocsJob.hexJobsRun.count (some "docs", "2026-W01") ≤ 1 := by
  have hrun : (jobPlane "local" 3600 tenTokens).run (.initial tenTokens) [.run 0 docsJob] =
      some oneDocsJob := rfl
  have hfits : tenTokens.Fits := by
    unfold JobQuota.Fits
    decide
  have hhealthy : (jobPlane "local" 3600 tenTokens).Along
      (fun s move _ => Healthy "local" 3600 s move) (.initial tenTokens) [.run 0 docsJob] := by
    intro t _
    refine ⟨⟨.inr fun c => ?_, fun _ => ⟨by decide, by decide⟩, ?_⟩, trivial⟩
    · cases c <;> rfl
    · intro id row hrow
      cases hrow
  exact (admissions_agree_over_runs 3600 hfits hrun hhealthy).2.2 "docs" "2026-W01"

/-- At a cap that is used up a reservation of nothing succeeds; a runner that has spent the cap of
one week refuses the jobs of the next; and practice hex jobs without tokens are not counted. -/
theorem admissions_disagree :
    ((jobPlane "local" 3600 tenTokens).run (.initial tenTokens) spentOut).any (fun s =>
      (s.db.reserve tenTokens "local" "b" emptyRequest).isSome &&
      !(s.db.snapshot "local" "2026-W01" { toJobQuota := tenTokens }).canAdmit .recertifier none 0 &&
      (s.admitted "local" 3600 0 (jobOf "2026-W02" .recertifier 1 none "b")).isNone &&
      s.ownWeekAdmits tenTokens "local" 3600 0 (jobOf "2026-W02" .recertifier 1 none "b")) = true ∧
    ((jobPlane "local" 3600 tenTokens).run (.initial tenTokens) freeHexTwice).any (fun s =>
      s.hexJobsRun.count (some "docs", "2026-W01") = 2) = true := by
  decide +kernel

end Recertia.Quota
