import Mathlib.Algebra.Group.Nat.Defs
import Recertia.Lib.Table

/-! The weekly job quota: rows of spent and reserved amounts by tenant and week, and the ledger of
reservations behind them. -/
namespace Recertia.Quota

inductive JobPriority
  | recertifier | curatorRetire | failClusterAuthor | practiceBand | practiceHex | compress
  deriving DecidableEq, Repr

/-- The caps of a policy, the shares of the weekly cap as whole tokens. -/
structure JobQuota where
  weeklyTokenCap : ℕ := 500000
  /-- `int(weekly_token_cap * hex_share)` -/
  hexCap : ℕ := 125000
  /-- `int(weekly_token_cap * computer_use_practice_share)` -/
  computerUseCap : ℕ := 75000
  maxHexJobsPerTaskClass : ℕ := 1
  deriving DecidableEq, Repr

/-- The largest INTEGER of a column. -/
def maxInteger : ℕ := 9223372036854775807

/-- The REAL nearest to a number, the even one of two: 53 bits of it. -/
def real (n : ℕ) : ℕ :=
  let unit := 2 ^ (n.log2 - 52)
  let below := n / unit
  let rest := 2 * (n % unit)
  if unit < rest ∨ unit = rest ∧ below % 2 = 1 then (below + 1) * unit else below * unit

/-- `column + ?`, a REAL from where it is no INTEGER. -/
def sqlAdd (column amount : ℕ) : ℕ :=
  if column + amount ≤ maxInteger then column + amount else real (real column + real amount)

/-- `MAX(0, column - ?)`; a REAL that is an INTEGER is stored as one. -/
def sqlSub (column amount : ℕ) : ℕ :=
  if column ≤ maxInteger then column - amount else real (column - real amount)

/-- Caps that are INTEGERs. -/
def JobQuota.Fits (quota : JobQuota) : Prop :=
  quota.weeklyTokenCap ≤ maxInteger ∧ quota.hexCap ≤ maxInteger ∧
    quota.computerUseCap ≤ maxInteger

def computerUseClass (taskClass : Option String) : Bool :=
  taskClass = some "bug_reproduction" || taskClass = some "playtest_operator" ||
    taskClass = some "docs_auditor"

/-- A row of `job_quota_week`; the two maps are of hex jobs by task class. -/
structure WeekRow where
  tokensSpent : ℕ := 0
  tokensReserved : ℕ := 0
  hexTokensSpent : ℕ := 0
  hexTokensReserved : ℕ := 0
  computerUseTokensSpent : ℕ := 0
  computerUseTokensReserved : ℕ := 0
  hexJobsByClass : Table String ℕ := .empty
  hexJobsReserved : Table String ℕ := .empty

inductive Status
  | reserved | settled | released
  deriving DecidableEq, Repr

/-- A row of `job_quota_ledger`. -/
structure LedgerRow where
  week : String
  job : String
  priority : JobPriority
  tokensReserved : ℕ
  tokensSettled : Option ℕ := none
  computerUseTokens : ℕ
  hexTokens : ℕ
  taskClass : Option String
  status : Status := .reserved
  createdAt : Int
  deriving DecidableEq, Repr

/-- Weeks by tenant and week, reservations by tenant and id. -/
structure QuotaDb where
  weeks : Table (String × String) WeekRow
  ledger : Table (String × String) LedgerRow

structure Request where
  week : String
  job : String
  priority : JobPriority
  tokens : Int
  taskClass : Option String := none
  createdAt : Int
  deriving DecidableEq, Repr

/-- What a reservation holds. -/
structure Amounts where
  tokens : ℕ
  hexTokens : ℕ
  cuTokens : ℕ
  classSlot : Option String

def getCount (jobs : Table String ℕ) (cls : String) : ℕ := (jobs.get? cls).getD 0

/-- `jobs[cls] = jobs.get(cls, 0) + 1` -/
def increment (jobs : Table String ℕ) (cls : String) : Table String ℕ :=
  jobs.upsert cls 1 (· + 1)

/-- `jobs[cls] = max(0, jobs.get(cls, 0) - 1)`, and a count of zero is dropped. -/
def decrement (jobs : Table String ℕ) (cls : String) : Table String ℕ :=
  let n := getCount jobs cls - 1
  if n = 0 then jobs.delete fun k _ => k = cls else jobs.upsert cls n fun _ => n

/-- `_hold`, on the row of the week; nothing where a cap is exceeded, or where the amount is no
INTEGER and the statement raises. -/
def WeekRow.hold (quota : JobQuota) (a : Amounts) (row : WeekRow) : Option WeekRow :=
  if row.tokensSpent + row.tokensReserved + a.tokens > quota.weeklyTokenCap then none
  else if row.hexTokensSpent + row.hexTokensReserved + a.hexTokens > quota.hexCap then none
  else if row.computerUseTokensSpent + row.computerUseTokensReserved + a.cuTokens >
    quota.computerUseCap then none
  else if a.tokens > maxInteger then none
  else
    let held := { row with
      tokensReserved := sqlAdd row.tokensReserved a.tokens
      hexTokensReserved := sqlAdd row.hexTokensReserved a.hexTokens
      computerUseTokensReserved := sqlAdd row.computerUseTokensReserved a.cuTokens }
    match a.classSlot with
    | none => some held
    | some cls =>
      if getCount row.hexJobsByClass cls + getCount row.hexJobsReserved cls ≥
        quota.maxHexJobsPerTaskClass then none
      else some { held with hexJobsReserved := increment row.hexJobsReserved cls }

/-- `_unhold`, on the row of the week: a subtraction ends at zero. -/
def WeekRow.unhold (a : Amounts) (settle : Bool) (row : WeekRow) : WeekRow :=
  let freed := { row with
    tokensReserved := sqlSub row.tokensReserved a.tokens
    hexTokensReserved := sqlSub row.hexTokensReserved a.hexTokens
    computerUseTokensReserved := sqlSub row.computerUseTokensReserved a.cuTokens
    hexJobsReserved := a.classSlot.elim row.hexJobsReserved (decrement row.hexJobsReserved) }
  if settle then
    { freed with
      tokensSpent := sqlAdd row.tokensSpent a.tokens
      hexTokensSpent := sqlAdd row.hexTokensSpent a.hexTokens
      computerUseTokensSpent := sqlAdd row.computerUseTokensSpent a.cuTokens
      hexJobsByClass := a.classSlot.elim row.hexJobsByClass (increment row.hexJobsByClass) }
  else freed

/-- What `reserve` works out of its arguments, behind the check of the token count. -/
def Request.amounts (req : Request) : Amounts where
  tokens := req.tokens.toNat
  hexTokens := if req.priority = .practiceHex then req.tokens.toNat else 0
  cuTokens := if computerUseClass req.taskClass ∧
    (req.priority = .practiceBand ∨ req.priority = .practiceHex) then req.tokens.toNat else 0
  classSlot := if req.priority = .practiceHex then req.taskClass.filter (· ≠ "") else none

def LedgerRow.amounts (row : LedgerRow) : Amounts where
  tokens := row.tokensReserved
  hexTokens := row.hexTokens
  cuTokens := row.computerUseTokens
  classSlot := row.taskClass.filter (· ≠ "")

/-- `reserve`, with the id that it draws; nothing where it raises, and the transaction with it. -/
def QuotaDb.reserve (db : QuotaDb) (quota : JobQuota) (tenant id : String) (req : Request) :
    Option QuotaDb := do
  if req.tokens < 0 then none
  let key := (tenant, req.week)
  let a := req.amounts
  let weeks := db.weeks.insertOrIgnore key {}
  let row ← weeks.get? key
  let held ← row.hold quota a
  let weeks := weeks.update (fun k _ => k = key) fun _ => held
  let ledger ← db.ledger.insert (tenant, id)
    { week := req.week, job := req.job, priority := req.priority, tokensReserved := a.tokens,
      computerUseTokens := a.cuTokens, hexTokens := a.hexTokens, taskClass := a.classSlot,
      createdAt := req.createdAt }
  some { weeks, ledger }

/-- `_finish`: a settlement or a release, of a reservation that is neither. -/
def QuotaDb.finish (db : QuotaDb) (tenant id : String) (settle : Bool) : QuotaDb :=
  match db.ledger.get? (tenant, id) with
  | none => db
  | some row =>
    if row.status ≠ .reserved then db
    else
      { weeks := db.weeks.update (fun k _ => k = (tenant, row.week)) (·.unhold row.amounts settle)
        ledger := db.ledger.update (fun k r => k = (tenant, id) ∧ r.status = .reserved) fun r =>
          { r with
            status := if settle then .settled else .released
            tokensSettled := if settle then some row.tokensReserved else none } }

def QuotaDb.settle (db : QuotaDb) (tenant id : String) : QuotaDb := db.finish tenant id true

def QuotaDb.release (db : QuotaDb) (tenant id : String) : QuotaDb := db.finish tenant id false

/-- `release_expired`, with a time to live in seconds; times are in microseconds. -/
def QuotaDb.releaseExpired (db : QuotaDb) (tenant : String) (ttl : ℕ) (now : Int) : QuotaDb :=
  let reserved := db.ledger.rows.filter fun row =>
    row.1.1 = tenant && row.2.status = .reserved
  reserved.foldl (fun db row =>
    if now - row.2.createdAt ≥ ttl * 1000000 then db.release tenant row.1.2 else db) db

end Recertia.Quota
