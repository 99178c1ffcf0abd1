import Mathlib.Data.List.Dedup
import Recertia.Lib.Transition
import Recertia.Quota.Accounting

/-! Job runners over one quota database: admission on a folded snapshot, then the reservation, the
job, and its settlement or release. -/
namespace Recertia.Quota

open Transition

/-- A `JobQuota` with what it counts as spent. -/
structure SpentQuota extends JobQuota where
  tokensSpent : ℕ := 0
  hexTokensSpent : ℕ := 0
  computerUseTokensSpent : ℕ := 0
  hexJobsByClass : Table String ℕ := .empty

namespace SpentQuota

def remaining (q : SpentQuota) : ℕ := q.weeklyTokenCap - q.tokensSpent

def hexRemaining (q : SpentQuota) : ℕ := min (q.hexCap - q.hexTokensSpent) q.remaining

def computerUseRemaining (q : SpentQuota) : ℕ :=
  min (q.computerUseCap - q.computerUseTokensSpent) q.remaining

/-- A class of computer use in a practice job. -/
def practiceComputerUse (job : JobPriority) (taskClass : Option String) : Bool :=
  computerUseClass taskClass && (job = .practiceBand || job = .practiceHex)

def canAdmit (q : SpentQuota) (job : JobPriority) (taskClass : Option String) (tokens : ℕ) :
    Bool :=
  if q.remaining = 0 then false
  else if practiceComputerUse job taskClass &&
    (q.computerUseRemaining = 0 || q.computerUseRemaining < tokens) then false
  else match job with
    | .recertifier | .curatorRetire | .failClusterAuthor | .practiceBand => tokens ≤ q.remaining
    | .practiceHex =>
      if taskClass.any fun cls => q.maxHexJobsPerTaskClass ≤ getCount q.hexJobsByClass cls then
        false
      else 0 < q.hexRemaining && tokens ≤ q.hexRemaining
    | .compress => tokens ≤ q.remaining

end SpentQuota

/-- `{key: settled.get(key, 0) + reserved.get(key, 0) for key in set(settled) | set(reserved)}` -/
def foldCounts (settled reserved : Table String ℕ) : Table String ℕ where
  rows := (settled.keys ++ reserved.keys).dedup.map fun cls =>
    (cls, getCount settled cls + getCount reserved cls)
  nodup := by
    rw [List.map_map]
    exact (List.map_id _).symm ▸ List.nodup_dedup _

/-- The quota with the spent and reserved amounts of a row for spent ones. -/
def WeekRow.fold (row : WeekRow) (base : JobQuota) : SpentQuota where
  toJobQuota := base
  tokensSpent := row.tokensSpent + row.tokensReserved
  hexTokensSpent := row.hexTokensSpent + row.hexTokensReserved
  computerUseTokensSpent := row.computerUseTokensSpent + row.computerUseTokensReserved
  hexJobsByClass := foldCounts row.hexJobsByClass row.hexJobsReserved

/-- Without a row of the week it is `base` as it is. -/
def QuotaDb.snapshot (db : QuotaDb) (tenant week : String) (base : SpentQuota) : SpentQuota :=
  match db.weeks.get? (tenant, week) with
  | none => base
  | some row => row.fold base.toJobQuota

/-- A runner with its copy of the quota and, while its job runs, the reservation behind it. -/
structure Runner where
  quota : SpentQuota
  active : Option (Option String) := none

/-- The runners of a tenant; `hexJobsRun` lists the practice hex jobs that have been run, by class
and week. -/
structure JobPlane where
  db : QuotaDb
  runners : ℕ → Runner
  hexJobsRun : List (Option String × String) := []

/-- The arguments of `run` and what it finds: the time, the id that it draws, and whether the
enablement report skips the job. -/
structure JobRequest where
  req : Request
  tokens : ℕ
  budget : req.tokens = tokens
  id : String
  now : Int
  skip : Bool := false

section Plane
variable (tenant : String) (ttl : ℕ)

/-- The database and the quota that a job is admitted on. -/
def JobPlane.refreshed (s : JobPlane) (r : ℕ) (job : JobRequest) : QuotaDb × SpentQuota :=
  let db := s.db.releaseExpired tenant ttl job.now
  (db, db.snapshot tenant job.req.week (s.runners r).quota)

/-- What the first part of `run` ends in: the job runs, or it is skipped or refused. -/
def JobPlane.admitted (s : JobPlane) (r : ℕ) (job : JobRequest) :
    Option (QuotaDb × Option String) :=
  let (db, quota) := s.refreshed tenant ttl r job
  if job.skip then none
  else if !quota.canAdmit job.req.priority job.req.taskClass job.tokens then none
  else if job.tokens = 0 then some (db, none)
  else (db.reserve quota.toJobQuota tenant job.id job.req).map fun db => (db, some job.id)

/-- `run` up to the call of the job. -/
def JobPlane.begin (s : JobPlane) (r : ℕ) (job : JobRequest) : JobPlane :=
  let (db, quota) := s.refreshed tenant ttl r job
  match s.admitted tenant ttl r job with
  | none => { s with db := db, runners := Function.update s.runners r { quota } }
  | some (db, reservation) =>
    { db := db
      runners := Function.update s.runners r { quota, active := some reservation }
      hexJobsRun :=
        if job.req.priority = .practiceHex then (job.req.taskClass, job.req.week) :: s.hexJobsRun
        else s.hexJobsRun }

/-- The rest of `run`, in the week that it ends in: a settlement, or a release where the job
raises or proposes too much. -/
def JobPlane.finish (s : JobPlane) (r : ℕ) (week : String) (done : Bool)
    (reservation : Option String) : JobPlane :=
  match reservation with
  | none => { s with runners := Function.update s.runners r { quota := (s.runners r).quota } }
  | some id =>
    let db := s.db.finish tenant id done
    let quota := db.snapshot tenant week (s.runners r).quota
    { s with db := db, runners := Function.update s.runners r { quota } }

inductive PlaneMove
  | start (r : ℕ) (week : String)
  | run (r : ℕ) (job : JobRequest)
  | finish (r : ℕ) (week : String) (done : Bool)

/-- A runner is built anew, also in place of one that has crashed; it runs one job at a time. -/
def jobPlane (quota : JobQuota) : System JobPlane PlaneMove where
  step s
    | .start r week =>
      let fresh := s.db.snapshot tenant week { toJobQuota := quota }
      some { s with runners := Function.update s.runners r { quota := fresh } }
    | .run r job => if (s.runners r).active.isSome then none else some (s.begin tenant ttl r job)
    | .finish r week done => (s.runners r).active.map fun reservation =>
        s.finish tenant r week done reservation

/-- No week yet, and every runner with a quota that has nothing spent. -/
def JobPlane.initial (quota : JobQuota) : JobPlane where
  db := .empty
  runners := fun _ => { quota := { toJobQuota := quota } }

end Plane

/-! When the two admissions agree: `can_admit` on the folded snapshot, and the checks on the row
that a reservation makes. -/

open SpentQuota

/-- What a quota counts as spent. -/
def SpentQuota.spent (q : SpentQuota) : Counter → ℕ
  | .tokens => q.tokensSpent
  | .hexTokens => q.hexTokensSpent
  | .computerUse => q.computerUseTokensSpent
  | .hexJobs cls => getCount q.hexJobsByClass cls

/-- Nothing spent, as in a quota that is read from the policy. -/
def SpentQuota.Unspent (q : SpentQuota) : Prop := ∀ c, q.spent c = 0

/-- The quota counts as spent what the row has spent and reserved. -/
structure Mirrors (q : SpentQuota) (quota : JobQuota) (row : WeekRow) : Prop where
  caps : q.toJobQuota = quota
  spent : ∀ c, q.spent c = row.spent c + row.reserved c

theorem getCount_of_not_mem {jobs : Table String ℕ} {cls : String} (h : cls ∉ jobs.keys) :
    getCount jobs cls = 0 := by
  rw [getCount, Table.get?_eq_none.mpr h, Option.getD_none]

theorem getCount_foldCounts (settled reserved : Table String ℕ) (cls : String) :
    getCount (foldCounts settled reserved) cls = getCount settled cls + getCount reserved cls := by
  by_cases hcls : cls ∈ settled.keys ++ reserved.keys
  · have hrow : (foldCounts settled reserved).get? cls =
        some (getCount settled cls + getCount reserved cls) := by
      apply Table.get?_eq_some.mpr
      exact List.mem_map.mpr ⟨cls, List.mem_dedup.mpr hcls, rfl⟩
    rw [getCount, hrow, Option.getD_some]
  · have hnone : cls ∉ (foldCounts settled reserved).keys := by
      intro hmem
      obtain ⟨n, hn⟩ := Table.mem_keys.mp hmem
      obtain ⟨cls', hcls', heq⟩ := List.mem_map.mp hn
      rw [← (Prod.mk.inj heq).1] at hcls
      exact hcls (List.mem_dedup.mp hcls')
    rw [List.mem_append, not_or] at hcls
    rw [getCount_of_not_mem hnone, getCount_of_not_mem hcls.1, getCount_of_not_mem hcls.2]

theorem fold_mirrors (row : WeekRow) (quota : JobQuota) : Mirrors (row.fold quota) quota row where
  caps := rfl
  spent c := by
    cases c with
    | tokens | hexTokens | computerUse => rfl
    | hexJobs cls => exact getCount_foldCounts row.hexJobsByClass row.hexJobsReserved cls

/-- The snapshot counts what the row of its week does, unless there is none and the quota that it
starts from has something spent. -/
theorem snapshot_mirrors {db : QuotaDb} {tenant week : String} {base : SpentQuota}
    (h : (db.weeks.get? (tenant, week)).isSome ∨ base.Unspent) :
    Mirrors (db.snapshot tenant week base) base.toJobQuota (db.weekRow tenant week) := by
  rw [QuotaDb.snapshot, QuotaDb.weekRow]
  cases hrow : db.weeks.get? (tenant, week) with
  | some row => exact fold_mirrors row base.toJobQuota
  | none =>
    rw [hrow] at h
    have hunspent : base.Unspent := h.resolve_left (by simp)
    refine ⟨rfl, fun c => ?_⟩
    rw [hunspent c]
    cases c <;> rfl

/-! ### The two checks -/

/-- Within the caps, a row holds what leaves it within the caps. -/
theorem hold_isSome_iff {quota : JobQuota} (hfits : quota.Fits) {row : WeekRow} (a : Amounts)
    (hcap : ∀ c, row.spent c + row.reserved c ≤ quota.cap c) :
    (row.hold quota a).isSome ↔ ∀ c, row.spent c + row.reserved c + a.get c ≤ quota.cap c := by
  constructor
  · intro h c
    obtain ⟨held, hheld⟩ := Option.isSome_iff_exists.mp h
    obtain ⟨hspent, hreserved, hwithin⟩ := hold_spec hfits hheld c
    have hle := hwithin (hcap c)
    omega
  · intro h
    have htokens := h .tokens
    have hhex := h .hexTokens
    have hcu := h .computerUse
    simp only [WeekRow.spent, WeekRow.reserved, Amounts.get, JobQuota.cap] at htokens hhex hcu
    have hinteger := hfits.1
    rw [WeekRow.hold, if_neg (by omega), if_neg (by omega), if_neg (by omega),
      if_neg (by omega)]
    cases hslot : a.classSlot with
    | none => rfl
    | some cls =>
      have hjobs := h (.hexJobs cls)
      simp only [WeekRow.spent, WeekRow.reserved, Amounts.get, JobQuota.cap, hslot,
        if_true] at hjobs
      dsimp only
      rw [if_neg (by omega)]
      rfl

/-- A reservation succeeds where the row of its week holds it. -/
theorem reserve_isSome_iff {db : QuotaDb} {quota : JobQuota} {tenant id : String} {req : Request}
    (htokens : 0 ≤ req.tokens) (hid : (tenant, id) ∉ db.ledger.keys) :
    (db.reserve quota tenant id req).isSome ↔
      ((db.weekRow tenant req.week).hold quota req.amounts).isSome := by
  have hrow : (db.weeks.insertOrIgnore (tenant, req.week) {}).get? (tenant, req.week) =
      some (db.weekRow tenant req.week) := by
    rw [Table.get?_insertOrIgnore, if_pos rfl]
    rfl
  unfold QuotaDb.reserve
  have htokens' : ¬ req.tokens < 0 := by omega
  simp only [if_neg htokens', Option.bind_eq_bind, hrow, Option.bind_some, Table.insert,
    dif_neg hid]
  cases (db.weekRow tenant req.week).hold quota req.amounts <;> rfl

/-- The cap of a counter is not used up. -/
def SpentQuota.Left (q : SpentQuota) (c : Counter) : Prop := q.spent c < q.cap c

theorem canAdmit_iff (q : SpentQuota) (job : JobPriority) (taskClass : Option String)
    (tokens : ℕ) : q.canAdmit job taskClass tokens = true ↔
      (q.Left .tokens ∧ q.spent .tokens + tokens ≤ q.cap .tokens) ∧
      (practiceComputerUse job taskClass = true →
        q.Left .computerUse ∧ q.spent .computerUse + tokens ≤ q.cap .computerUse) ∧
      (job = .practiceHex → (∀ cls ∈ taskClass, q.Left (.hexJobs cls)) ∧
        q.Left .hexTokens ∧ q.spent .hexTokens + tokens ≤ q.cap .hexTokens) := by
  simp only [SpentQuota.Left, SpentQuota.spent, JobQuota.cap]
  unfold canAdmit remaining computerUseRemaining hexRemaining remaining
  by_cases hremaining : q.weeklyTokenCap - q.tokensSpent = 0
  · rw [if_pos hremaining]
    simp only [Bool.false_eq_true, false_iff]
    omega
  · rw [if_neg hremaining]
    -- Only a practice hex job has a count of its class and a share of its own.
    by_cases hclasses : ∀ cls ∈ taskClass, getCount q.hexJobsByClass cls < q.maxHexJobsPerTaskClass
    · have hany : (taskClass.any fun cls =>
          decide (q.maxHexJobsPerTaskClass ≤ getCount q.hexJobsByClass cls)) = false := by
        cases taskClass with
        | none => rfl
        | some cls => simpa using hclasses cls rfl
      rw [eq_true hclasses]
      cases hcu : practiceComputerUse job taskClass <;> cases job <;> simp [hany] <;> omega
    · have hany : (taskClass.any fun cls =>
          decide (q.maxHexJobsPerTaskClass ≤ getCount q.hexJobsByClass cls)) = true := by
        cases taskClass with
        | none => exact absurd (fun cls hcls => by cases hcls) hclasses
        | some cls => simpa using hclasses
      rw [eq_false hclasses]
      cases hcu : practiceComputerUse job taskClass <;> cases job <;> simp [hany] <;> omega

/-- What a row within its caps holds, by the counters of the request. -/
theorem hold_request_iff {q : SpentQuota} {quota : JobQuota} {row : WeekRow} {req : Request}
    {tokens : ℕ} (hfits : quota.Fits) (hq : Mirrors q quota row) (htokens : req.tokens = tokens)
    (hcap : ∀ c, row.spent c + row.reserved c ≤ quota.cap c) :
    (row.hold quota req.amounts).isSome ↔
      q.spent .tokens + tokens ≤ q.cap .tokens ∧
      (req.priority = .practiceHex → q.spent .hexTokens + tokens ≤ q.cap .hexTokens) ∧
      (practiceComputerUse req.priority req.taskClass = true →
        q.spent .computerUse + tokens ≤ q.cap .computerUse) ∧
      (req.priority = .practiceHex → ∀ cls ∈ req.taskClass, cls ≠ "" → q.Left (.hexJobs cls)) := by
  have hnat : req.tokens.toNat = tokens := by omega
  have hcu : practiceComputerUse req.priority req.taskClass = true ↔
      computerUseClass req.taskClass = true ∧
        (req.priority = .practiceBand ∨ req.priority = .practiceHex) := by
    simp [practiceComputerUse]
  have hcaps : ∀ c, q.cap c = quota.cap c := fun c => by rw [hq.caps]
  rw [hold_isSome_iff hfits req.amounts hcap, hcu]
  simp only [SpentQuota.Left, hq.spent, hcaps]
  constructor
  · intro h
    refine ⟨?_, fun hhex => ?_, fun hpractice => ?_, fun hhex cls hcls hne => ?_⟩
    · simpa [Amounts.get, Request.amounts, hnat] using h .tokens
    · simpa [Amounts.get, Request.amounts, hnat, hhex] using h .hexTokens
    · have hle := h .computerUse
      simp only [Amounts.get, Request.amounts, hnat] at hle
      rwa [if_pos hpractice] at hle
    · have hle := h (.hexJobs cls)
      have hslot : req.amounts.classSlot = some cls := by
        simp [Request.amounts, hhex, Option.mem_def.mp hcls, hne]
      simp only [Amounts.get, hslot, if_true] at hle
      omega
  · rintro ⟨hall, hhex, hpractice, hjobs⟩ c
    cases c with
    | tokens => simpa [Amounts.get, Request.amounts, hnat] using hall
    | hexTokens =>
      simp only [Amounts.get, Request.amounts, hnat]
      split
      · rename_i h
        exact hhex h
      · exact hcap .hexTokens
    | computerUse =>
      simp only [Amounts.get, Request.amounts, hnat]
      split
      · rename_i h
        exact hpractice h
      · exact hcap .computerUse
    | hexJobs cls =>
      simp only [Amounts.get]
      split
      · rename_i hslot
        simp only [Request.amounts] at hslot
        split at hslot
        · rename_i h
          obtain ⟨hcls, hne⟩ := Option.filter_eq_some_iff.mp hslot
          exact hjobs h cls hcls (of_decide_eq_true hne)
        · cases hslot
      · exact hcap (.hexJobs cls)

/-- The requests that a reservation takes and `can_admit` does not: without tokens, at a cap that is
used up, or a practice hex job of the class `""`, where the count of that class is. -/
def AtEdge (q : SpentQuota) (req : Request) : Prop :=
  (req.tokens = 0 ∧
      (req.priority = .practiceHex → ∀ cls ∈ req.taskClass, cls ≠ "" → q.Left (.hexJobs cls)) ∧
      (¬ q.Left .tokens ∨
        practiceComputerUse req.priority req.taskClass = true ∧ ¬ q.Left .computerUse ∨
        req.priority = .practiceHex ∧ ¬ q.Left .hexTokens)) ∨
    (req.priority = .practiceHex ∧ req.taskClass = some "" ∧ ¬ q.Left (.hexJobs "") ∧
      q.spent .tokens + req.tokens.toNat ≤ q.cap .tokens ∧
      q.spent .hexTokens + req.tokens.toNat ≤ q.cap .hexTokens)

section Agree
variable {q : SpentQuota} {quota : JobQuota} {row : WeekRow} {req : Request} {tokens : ℕ}
  (hfits : quota.Fits) (hq : Mirrors q quota row) (htokens : req.tokens = tokens)
  (hcap : ∀ c, row.spent c + row.reserved c ≤ quota.cap c)
include hfits hq htokens hcap

/-- What `can_admit` admits is held. -/
theorem hold_of_canAdmit (h : q.canAdmit req.priority req.taskClass tokens = true) :
    (row.hold quota req.amounts).isSome := by
  obtain ⟨⟨-, hall⟩, hpractice, hhex⟩ := (canAdmit_iff ..).mp h
  apply (hold_request_iff hfits hq htokens hcap).mpr
  exact ⟨hall, fun h => (hhex h).2.2, fun h => (hpractice h).2,
    fun h cls hcls _ => (hhex h).1 cls hcls⟩

/-- The two admissions agree exactly away from the edge. -/
theorem admissions_agree_iff :
    ((row.hold quota req.amounts).isSome ↔
      q.canAdmit req.priority req.taskClass tokens = true) ↔ ¬ AtEdge q req := by
  have hcapped : ∀ c, q.spent c ≤ q.cap c := fun c => by
    rw [hq.spent, hq.caps]
    exact hcap c
  have hnat : req.tokens.toNat = tokens := by omega
  constructor
  · rintro hagree hedge
    obtain ⟨hzero, hjobs, hused⟩ | ⟨hhex, hcls, hused, hall, hshare⟩ := hedge
    · have hheld : (row.hold quota req.amounts).isSome := by
        apply (hold_request_iff hfits hq htokens hcap).mpr
        have ht : tokens = 0 := by omega
        rw [ht]
        exact ⟨hcapped .tokens, fun _ => hcapped .hexTokens, fun _ => hcapped .computerUse, hjobs⟩
      obtain ⟨⟨hleft, -⟩, hpractice, hhex⟩ := (canAdmit_iff ..).mp (hagree.mp hheld)
      obtain hused | ⟨h, hused⟩ | ⟨h, hused⟩ := hused
      · exact hused hleft
      · exact hused (hpractice h).1
      · exact hused (hhex h).2.1
    · rw [hnat] at hall hshare
      have hheld : (row.hold quota req.amounts).isSome := by
        apply (hold_request_iff hfits hq htokens hcap).mpr
        refine ⟨hall, fun _ => hshare, fun h => ?_, fun _ cls hmem hne => ?_⟩
        · simp [practiceComputerUse, computerUseClass, hcls] at h
        · rw [hcls] at hmem
          exact absurd (Option.some.inj hmem).symm hne
      obtain ⟨-, -, hadmitted⟩ := (canAdmit_iff ..).mp (hagree.mp hheld)
      exact hused ((hadmitted hhex).1 "" hcls)
  · intro hedge
    refine ⟨fun hheld => ?_, hold_of_canAdmit hfits hq htokens hcap⟩
    obtain ⟨hall, hshare, hpractice, hjobs⟩ := (hold_request_iff hfits hq htokens hcap).mp hheld
    rw [AtEdge, not_or] at hedge
    obtain ⟨hzero, hempty⟩ := hedge
    -- A request that is not at the edge leaves something of each cap that it is measured by.
    have hleft : q.Left .tokens ∧
        (practiceComputerUse req.priority req.taskClass = true → q.Left .computerUse) ∧
        (req.priority = .practiceHex → q.Left .hexTokens) := by
      by_cases ht : req.tokens = 0
      · refine ⟨?_, fun h => ?_, fun h => ?_⟩ <;> by_contra hused <;> apply hzero
        · exact ⟨ht, hjobs, .inl hused⟩
        · exact ⟨ht, hjobs, .inr (.inl ⟨h, hused⟩)⟩
        · exact ⟨ht, hjobs, .inr (.inr ⟨h, hused⟩)⟩
      · have hpos : 0 < tokens := by omega
        simp only [SpentQuota.Left]
        refine ⟨by omega, fun h => ?_, fun h => ?_⟩
        · have hle := hpractice h
          omega
        · have hle := hshare h
          omega
    apply (canAdmit_iff ..).mpr
    refine ⟨⟨hleft.1, hall⟩, fun h => ⟨hleft.2.1 h, hpractice h⟩, fun h =>
      ⟨fun cls hcls => ?_, hleft.2.2 h, hshare h⟩⟩
    by_cases hne : cls = ""
    · subst hne
      by_contra hused
      exact hempty ⟨h, hcls, hused, hnat ▸ hall, hnat ▸ hshare h⟩
    · exact hjobs h cls hcls hne

end Agree

end Recertia.Quota
