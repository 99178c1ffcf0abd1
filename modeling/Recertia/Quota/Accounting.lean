import Recertia.Lib.Table
import Recertia.Quota.Repository

/-! The accounts of the weekly quota: the columns of a week against the ledger, over any calls. -/
namespace Recertia.Quota

/-- What a week counts; the hex jobs of each task class are a counter of their own. -/
inductive Counter
  | tokens | hexTokens | computerUse
  | hexJobs (cls : String)

def Amounts.get (a : Amounts) : Counter → ℕ
  | .tokens => a.tokens
  | .hexTokens => a.hexTokens
  | .computerUse => a.cuTokens
  | .hexJobs cls => if a.classSlot = some cls then 1 else 0

def WeekRow.reserved (row : WeekRow) : Counter → ℕ
  | .tokens => row.tokensReserved
  | .hexTokens => row.hexTokensReserved
  | .computerUse => row.computerUseTokensReserved
  | .hexJobs cls => getCount row.hexJobsReserved cls

def WeekRow.spent (row : WeekRow) : Counter → ℕ
  | .tokens => row.tokensSpent
  | .hexTokens => row.hexTokensSpent
  | .computerUse => row.computerUseTokensSpent
  | .hexJobs cls => getCount row.hexJobsByClass cls

def JobQuota.cap (quota : JobQuota) : Counter → ℕ
  | .tokens => quota.weeklyTokenCap
  | .hexTokens => quota.hexCap
  | .computerUse => quota.computerUseCap
  | .hexJobs _ => quota.maxHexJobsPerTaskClass

/-- The row of a week; one that is not there counts nothing. -/
def QuotaDb.weekRow (db : QuotaDb) (tenant week : String) : WeekRow :=
  (db.weeks.get? (tenant, week)).getD {}

/-- The sum of a tenant's ledger rows of a week in a status. -/
def QuotaDb.total (db : QuotaDb) (status : Status) (tenant week : String) (c : Counter) : ℕ :=
  db.ledger.sum fun k row =>
    if k.1 = tenant ∧ row.week = week ∧ row.status = status then row.amounts.get c else 0

theorem getCount_increment (jobs : Table String ℕ) (cls c : String) :
    getCount (increment jobs cls) c = getCount jobs c + if cls = c then 1 else 0 := by
  unfold getCount increment
  rw [Table.get?_upsert]
  by_cases hc : c = cls
  · rw [if_pos hc, if_pos hc.symm, hc]
    cases jobs.get? cls <;> simp
  · rw [if_neg hc, if_neg fun h => hc h.symm, Nat.add_zero]

theorem getCount_decrement (jobs : Table String ℕ) (cls c : String) :
    getCount (decrement jobs cls) c = getCount jobs c - if cls = c then 1 else 0 := by
  unfold decrement
  dsimp only
  by_cases hc : c = cls
  · rw [if_pos hc.symm, hc]
    split
    · rename_i hzero
      rw [hzero]
      unfold getCount
      rw [Table.get?_delete]
      cases jobs.get? cls <;> simp
    · unfold getCount
      rw [Table.get?_upsert, if_pos rfl]
      cases jobs.get? cls <;> rfl
  · have hne : ¬ cls = c := fun h => hc h.symm
    rw [if_neg hne, Nat.sub_zero]
    unfold getCount
    split
    · rw [Table.get?_delete]
      cases jobs.get? c <;> simp [hc, Option.filter]
    · rw [Table.get?_upsert, if_neg hc]

theorem sqlAdd_of_le {column amount : ℕ} (h : column + amount ≤ maxInteger) :
    sqlAdd column amount = column + amount := if_pos h

theorem sqlSub_of_le {column : ℕ} (h : column ≤ maxInteger) (amount : ℕ) :
    sqlSub column amount = column - amount := if_pos h

/-- What `_hold` does to a row of a week under caps that fit. -/
theorem hold_spec {quota : JobQuota} (hfits : quota.Fits) {a : Amounts} {row held : WeekRow}
    (h : row.hold quota a = some held) (c : Counter) :
    held.spent c = row.spent c ∧ held.reserved c = row.reserved c + a.get c ∧
      (row.spent c + row.reserved c ≤ quota.cap c →
        held.spent c + held.reserved c ≤ quota.cap c) := by
  obtain ⟨hfit, hfithex, hfitcu⟩ := hfits
  unfold WeekRow.hold at h
  split at h
  · cases h
  rename_i htokens
  split at h
  · cases h
  rename_i hhex
  split at h
  · cases h
  rename_i hcu
  split at h
  · cases h
  have htokens' : row.tokensSpent + (row.tokensReserved + a.tokens) ≤ quota.weeklyTokenCap := by
    omega
  have hhex' : row.hexTokensSpent + (row.hexTokensReserved + a.hexTokens) ≤ quota.hexCap := by
    omega
  have hcu' : row.computerUseTokensSpent + (row.computerUseTokensReserved + a.cuTokens) ≤
      quota.computerUseCap := by
    omega
  rw [sqlAdd_of_le (by omega), sqlAdd_of_le (by omega), sqlAdd_of_le (by omega)] at h
  cases hslot : a.classSlot with
  | none =>
    rw [hslot] at h
    cases h
    cases c with
    | tokens => exact ⟨rfl, rfl, fun _ => htokens'⟩
    | hexTokens => exact ⟨rfl, rfl, fun _ => hhex'⟩
    | computerUse => exact ⟨rfl, rfl, fun _ => hcu'⟩
    | hexJobs cls =>
      refine ⟨rfl, ?_, id⟩
      simp [WeekRow.reserved, Amounts.get, hslot]
  | some slot =>
    rw [hslot] at h
    dsimp only at h
    split at h
    · cases h
    rename_i hjobs
    cases h
    cases c with
    | tokens => exact ⟨rfl, rfl, fun _ => htokens'⟩
    | hexTokens => exact ⟨rfl, rfl, fun _ => hhex'⟩
    | computerUse => exact ⟨rfl, rfl, fun _ => hcu'⟩
    | hexJobs cls =>
      simp only [WeekRow.spent, WeekRow.reserved, JobQuota.cap, Amounts.get, hslot,
        getCount_increment, Option.some.injEq, true_and]
      intro hcap
      by_cases hcls : slot = cls
      · rw [hcls] at hjobs
        rw [if_pos hcls]
        omega
      · rw [if_neg hcls]
        exact hcap

/-- What `_unhold` does to a row within caps that fit, if it holds what is taken from it. -/
theorem unhold_spec {quota : JobQuota} (hfits : quota.Fits) {a : Amounts} {row : WeekRow}
    (hcap : ∀ c, row.spent c + row.reserved c ≤ quota.cap c) (hle : ∀ c, a.get c ≤ row.reserved c)
    (settle : Bool) (c : Counter) :
    (row.unhold a settle).reserved c = row.reserved c - a.get c ∧
      (row.unhold a settle).spent c = row.spent c + if settle then a.get c else 0 := by
  obtain ⟨hfit, hfithex, hfitcu⟩ := hfits
  have htokens := hcap .tokens
  have hhex := hcap .hexTokens
  have hcu := hcap .computerUse
  have hletokens := hle .tokens
  have hlehex := hle .hexTokens
  have hlecu := hle .computerUse
  simp only [WeekRow.spent, WeekRow.reserved, JobQuota.cap] at htokens hhex hcu
  simp only [WeekRow.reserved, Amounts.get] at hletokens hlehex hlecu
  unfold WeekRow.unhold
  rw [sqlSub_of_le (by omega), sqlSub_of_le (by omega), sqlSub_of_le (by omega),
    sqlAdd_of_le (by omega), sqlAdd_of_le (by omega), sqlAdd_of_le (by omega)]
  cases settle <;> cases c <;> cases hslot : a.classSlot <;>
    simp [WeekRow.reserved, WeekRow.spent, Amounts.get, hslot, getCount_increment,
      getCount_decrement]

/-- What a reservation that succeeds has done. -/
structure Held (quota : JobQuota) (db t : QuotaDb) (tenant id : String) (req : Request) where
  held : WeekRow
  row : LedgerRow
  hold : (db.weekRow tenant req.week).hold quota req.amounts = some held
  week : row.week = req.week
  status : row.status = .reserved
  amounts : row.amounts = req.amounts
  ledger : db.ledger.insert (tenant, id) row = some t.ledger
  weekRow : ∀ tn w, t.weekRow tn w =
    if (tn, w) = (tenant, req.week) then held else db.weekRow tn w
  present : ∀ k, (t.weeks.get? k).isSome = true ↔
    k = (tenant, req.week) ∨ (db.weeks.get? k).isSome = true

theorem reserve_held {quota : JobQuota} {db t : QuotaDb} {tenant id : String} {req : Request}
    (h : db.reserve quota tenant id req = some t) : Nonempty (Held quota db t tenant id req) := by
  unfold QuotaDb.reserve at h
  split at h
  · cases h
  simp only [Option.bind_eq_bind, Option.bind_eq_some_iff] at h
  obtain ⟨row, hrow, held, hheld, ledger, hledger, hsome⟩ := h
  cases hsome
  have hweek : db.weekRow tenant req.week = row := by
    rw [Table.get?_insertOrIgnore, if_pos rfl] at hrow
    exact Option.some.inj hrow
  refine ⟨⟨held, _, hweek ▸ hheld, rfl, rfl, ?_, hledger, fun tn w => ?_, fun k => ?_⟩⟩
  · unfold LedgerRow.amounts Request.amounts
    split <;> simp
  · unfold QuotaDb.weekRow
    rw [Table.get?_update, Table.get?_insertOrIgnore]
    by_cases hk : (tn, w) = (tenant, req.week)
    · rw [if_pos hk, if_pos hk, Option.map_some, if_pos (by simpa using hk), Option.getD_some]
    · rw [if_neg hk, if_neg hk]
      cases db.weeks.get? (tn, w) <;> simp [hk]
  · rw [Table.get?_update, Option.isSome_map, Table.get?_insertOrIgnore]
    by_cases hk : k = (tenant, req.week)
    · simp [hk]
    · simp [hk]

/-- A settlement or a release of a reservation that is neither changes its week and its row. -/
theorem finish_eq {db : QuotaDb} {tenant id : String} {settle : Bool} {row : LedgerRow}
    (hrow : db.ledger.get? (tenant, id) = some row) (hstatus : row.status = .reserved) :
    db.finish tenant id settle =
      { weeks := db.weeks.update (fun k _ => k = (tenant, row.week)) (·.unhold row.amounts settle)
        ledger := db.ledger.update (fun k r => k = (tenant, id) ∧ r.status = .reserved) fun r =>
          { r with
            status := if settle then .settled else .released
            tokensSettled := if settle then some row.tokensReserved else none } } := by
  unfold QuotaDb.finish
  rw [hrow]
  simp [hstatus]

theorem finish_of_done {db : QuotaDb} {tenant id : String} {settle : Bool}
    (h : ∀ row, db.ledger.get? (tenant, id) = some row → row.status ≠ .reserved) :
    db.finish tenant id settle = db := by
  unfold QuotaDb.finish
  cases hrow : db.ledger.get? (tenant, id) with
  | none => rfl
  | some row => exact if_pos (h row hrow)

/-- Nothing is left to finish, or the reservation is still one. -/
theorem finish_cases (db : QuotaDb) (tenant id : String) :
    (∀ row, db.ledger.get? (tenant, id) = some row → row.status ≠ .reserved) ∨
      ∃ row, db.ledger.get? (tenant, id) = some row ∧ row.status = .reserved := by
  by_cases hdone : ∀ row, db.ledger.get? (tenant, id) = some row → row.status ≠ .reserved
  · exact Or.inl hdone
  · exact Or.inr (by simpa using hdone)

/-- The columns of every week are the sums of the ledger, and within the caps. -/
structure QuotaDb.Accounted (quota : String → JobQuota) (db : QuotaDb) : Prop where
  reserved : ∀ tenant week c,
    (db.weekRow tenant week).reserved c = db.total .reserved tenant week c
  spent : ∀ tenant week c, (db.weekRow tenant week).spent c = db.total .settled tenant week c
  capped : ∀ tenant week c, (db.weekRow tenant week).spent c +
    (db.weekRow tenant week).reserved c ≤ (quota tenant).cap c
  present : ∀ k row, db.ledger.get? k = some row → (db.weeks.get? (k.1, row.week)).isSome = true

/-- A reservation adds its amounts to the reserved total of its week. -/
theorem reserve_total {caps : JobQuota} {db t : QuotaDb} {tenant id : String} {req : Request}
    (ht : db.reserve caps tenant id req = some t) (s : Status) (tn w : String) (c : Counter) :
    t.total s tn w c = db.total s tn w c +
      if tenant = tn ∧ req.week = w ∧ Status.reserved = s then req.amounts.get c else 0 := by
  obtain ⟨hheld⟩ := reserve_held ht
  unfold QuotaDb.total
  rw [Table.sum_of_rows_append (Table.insert_eq_some.mp hheld.ledger).2, hheld.week,
    hheld.status, hheld.amounts]

section Steps
variable {quota : String → JobQuota} {db : QuotaDb} (h : db.Accounted quota)
include h

/-- A reservation is one of the summands of its week, so no subtraction ends early. -/
theorem QuotaDb.Accounted.le_reserved {k : String × String} {row : LedgerRow}
    (hrow : db.ledger.get? k = some row) (hstatus : row.status = .reserved) (c : Counter) :
    row.amounts.get c ≤ (db.weekRow k.1 row.week).reserved c := by
  rw [h.reserved]
  have hle := Table.le_sum hrow fun k' r =>
    if k'.1 = k.1 ∧ r.week = row.week ∧ r.status = .reserved then r.amounts.get c else 0
  rw [if_pos ⟨rfl, rfl, hstatus⟩] at hle
  exact hle

theorem accounted_reserve (hfits : ∀ tenant, (quota tenant).Fits) {t : QuotaDb}
    {tenant id : String} {req : Request}
    (ht : db.reserve (quota tenant) tenant id req = some t) : t.Accounted quota := by
  obtain ⟨hheld⟩ := reserve_held ht
  have htotal := reserve_total ht
  have hspec := fun c => hold_spec (hfits tenant) hheld.hold c
  refine ⟨fun tn w c => ?_, fun tn w c => ?_, fun tn w c => ?_, fun k row hrow => ?_⟩
  · rw [hheld.weekRow, htotal, ← h.reserved]
    by_cases hk : (tn, w) = (tenant, req.week)
    · obtain ⟨rfl, rfl⟩ := Prod.mk.inj hk
      rw [if_pos rfl, if_pos ⟨rfl, rfl, rfl⟩]
      exact (hspec c).2.1
    · have hne : ¬ (tenant = tn ∧ req.week = w ∧ Status.reserved = Status.reserved) :=
        fun hall => hk (Prod.ext hall.1.symm hall.2.1.symm)
      rw [if_neg hk, if_neg hne, Nat.add_zero]
  · rw [hheld.weekRow, htotal, ← h.spent]
    have hne : ¬ (tenant = tn ∧ req.week = w ∧ Status.reserved = Status.settled) :=
      fun hall => Status.noConfusion hall.2.2
    rw [if_neg hne, Nat.add_zero]
    split
    · rename_i hk
      obtain ⟨rfl, rfl⟩ := Prod.mk.inj hk
      exact (hspec c).1
    · rfl
  · rw [hheld.weekRow]
    split
    · rename_i hk
      obtain ⟨rfl, rfl⟩ := Prod.mk.inj hk
      exact (hspec c).2.2 (h.capped tn req.week c)
    · exact h.capped tn w c
  · rw [hheld.present]
    rw [Table.get?_insert hheld.ledger] at hrow
    split at hrow
    · rename_i hk
      left
      rw [← Option.some.inj hrow, hk, hheld.week]
    · exact Or.inr (h.present k row hrow)

end Steps

section Finish
variable {quota : String → JobQuota} {db : QuotaDb}

/-- The row that a settlement or a release leaves. -/
def LedgerRow.done (row : LedgerRow) (settle : Bool) : LedgerRow :=
  { row with
    status := if settle then .settled else .released
    tokensSettled := if settle then some row.tokensReserved else none }

theorem finish_get? {tenant id : String} {settle : Bool} {row : LedgerRow}
    (hrow : db.ledger.get? (tenant, id) = some row) (hstatus : row.status = .reserved)
    (k : String × String) : (db.finish tenant id settle).ledger.get? k =
      if k = (tenant, id) then some (row.done settle) else db.ledger.get? k := by
  rw [finish_eq hrow hstatus, Table.get?_update]
  by_cases hk : k = (tenant, id)
  · rw [if_pos hk, hk, hrow, Option.map_some, if_pos (by simp [hstatus])]
    rfl
  · rw [if_neg hk]
    cases db.ledger.get? k <;> simp [hk]

theorem finish_weekRow {tenant id : String} {settle : Bool} {row : LedgerRow}
    (h : db.Accounted quota) (hrow : db.ledger.get? (tenant, id) = some row)
    (hstatus : row.status = .reserved) (tn w : String) :
    (db.finish tenant id settle).weekRow tn w = if (tn, w) = (tenant, row.week) then
      (db.weekRow tn w).unhold row.amounts settle else db.weekRow tn w := by
  rw [finish_eq hrow hstatus]
  unfold QuotaDb.weekRow
  rw [Table.get?_update]
  by_cases hk : (tn, w) = (tenant, row.week)
  · have hpresent := h.present _ row hrow
    obtain ⟨week, hweek⟩ := Option.isSome_iff_exists.mp hpresent
    rw [if_pos hk, hk, hweek]
    simp
  · rw [if_neg hk]
    cases db.weeks.get? (tn, w) <;> simp [hk]

/-- The row moves its amounts from one total of its week to another. -/
theorem finish_total {tenant id : String} (settle : Bool) {row : LedgerRow}
    (hrow : db.ledger.get? (tenant, id) = some row) (hstatus : row.status = .reserved)
    (s : Status) (tn w : String) (c : Counter) :
    (db.finish tenant id settle).total s tn w c +
        (if tenant = tn ∧ row.week = w ∧ Status.reserved = s then row.amounts.get c else 0) =
      db.total s tn w c + if tenant = tn ∧ row.week = w ∧ (row.done settle).status = s then
        row.amounts.get c else 0 := by
  rw [finish_eq hrow hstatus]
  unfold QuotaDb.total
  have hsum := Table.sum_update (p := fun k r => k = (tenant, id) ∧ r.status = .reserved)
    (fun r => { r with
      status := if settle then Status.settled else .released
      tokensSettled := if settle then some row.tokensReserved else none }) hrow
    (fun r hr => ?_) fun k r =>
      if k.1 = tn ∧ r.week = w ∧ r.status = s then r.amounts.get c else 0
  · rw [hstatus] at hsum
    exact hsum
  · rw [decide_eq_true_eq]
    refine ⟨And.left, fun hk => ⟨hk, ?_⟩⟩
    have hr' : ((tenant, id), r.2) ∈ db.ledger.rows := hk ▸ hr
    rw [Table.row_unique hr' (Table.get?_eq_some.mp hrow)]
    exact hstatus

theorem accounted_finish (hfits : ∀ tenant, (quota tenant).Fits) (h : db.Accounted quota)
    (tenant id : String) (settle : Bool) :
    (db.finish tenant id settle).Accounted quota := by
  obtain hdone | ⟨row, hrow, hstatus⟩ := finish_cases db tenant id
  · rw [finish_of_done hdone]
    exact h
  have hle := fun c => h.le_reserved hrow hstatus c
  have hspec := unhold_spec (hfits tenant) (h.capped tenant row.week) hle settle
  have hstatus' : (row.done settle).status ≠ .reserved := by cases settle <;> exact Status.noConfusion
  -- Out of the reserved rows of its week, and into the settled ones, if it is settled.
  have hreserved : ∀ tn w c, (db.finish tenant id settle).total .reserved tn w c +
      (if (tn, w) = (tenant, row.week) then row.amounts.get c else 0) =
        (db.weekRow tn w).reserved c := by
    intro tn w c
    rw [h.reserved, ← Nat.add_zero (db.total _ _ _ _)]
    convert finish_total settle hrow hstatus .reserved tn w c using 2
    · simp [eq_comm]
    · simp [hstatus']
  have hsettled : ∀ tn w c, (db.finish tenant id settle).total .settled tn w c =
      (db.weekRow tn w).spent c +
        if (tn, w) = (tenant, row.week) ∧ settle = true then row.amounts.get c else 0 := by
    intro tn w c
    rw [h.spent, ← Nat.add_zero (QuotaDb.total _ _ _ _ _)]
    convert finish_total settle hrow hstatus .settled tn w c using 2
    · simp
    · cases settle <;> simp [LedgerRow.done, eq_comm]
  refine ⟨fun tn w c => ?_, fun tn w c => ?_, fun tn w c => ?_, fun k r hr => ?_⟩
  · have hsum := hreserved tn w c
    rw [finish_weekRow h hrow hstatus]
    split
    · rename_i hk
      rw [if_pos hk] at hsum
      obtain ⟨rfl, rfl⟩ := Prod.mk.inj hk
      rw [(hspec c).1]
      omega
    · rename_i hk
      rw [if_neg hk] at hsum
      exact hsum.symm
  · rw [finish_weekRow h hrow hstatus, hsettled]
    split
    · rename_i hk
      obtain ⟨rfl, rfl⟩ := Prod.mk.inj hk
      rw [(hspec c).2]
      simp
    · rename_i hk
      simp [hk]
  · rw [finish_weekRow h hrow hstatus]
    have hcap := h.capped tn w c
    split
    · rename_i hk
      obtain ⟨rfl, rfl⟩ := Prod.mk.inj hk
      have hlec : row.amounts.get c ≤ (db.weekRow tn row.week).reserved c := hle c
      rw [(hspec c).1, (hspec c).2]
      split <;> omega
    · exact hcap
  · rw [finish_get? hrow hstatus] at hr
    have hpresent : (db.weeks.get? (k.1, r.week)).isSome = true := by
      split at hr
      · rename_i hk
        rw [← Option.some.inj hr, hk]
        exact h.present _ row hrow
      · exact h.present k r hr
    rw [finish_eq hrow hstatus, Table.get?_update, Option.isSome_map]
    exact hpresent

/-- Reservations stay, with their weeks and amounts; one that is settled or released stays so. -/
def QuotaDb.Keeps (db t : QuotaDb) : Prop :=
  ∀ k row, db.ledger.get? k = some row → ∃ row', t.ledger.get? k = some row' ∧
    row'.week = row.week ∧ row'.amounts = row.amounts ∧ (row.status ≠ .reserved → row' = row)

theorem keeps_refl (db : QuotaDb) : db.Keeps db :=
  fun _ row hrow => ⟨row, hrow, rfl, rfl, fun _ => rfl⟩

theorem QuotaDb.Keeps.trans {a b c : QuotaDb} (hab : a.Keeps b) (hbc : b.Keeps c) :
    a.Keeps c := by
  intro k row hrow
  obtain ⟨row', hrow', hweek, hamounts, hdone⟩ := hab k row hrow
  obtain ⟨row'', hrow'', hweek', hamounts', hdone'⟩ := hbc k row' hrow'
  refine ⟨row'', hrow'', hweek'.trans hweek, hamounts'.trans hamounts, fun hstatus => ?_⟩
  have hsame := hdone hstatus
  rw [hdone' (hsame ▸ hstatus), hsame]

theorem keeps_reserve {t : QuotaDb} {caps : JobQuota} {tenant id : String} {req : Request}
    (ht : db.reserve caps tenant id req = some t) : db.Keeps t := by
  obtain ⟨hheld⟩ := reserve_held ht
  intro k row hrow
  refine ⟨row, ?_, rfl, rfl, fun _ => rfl⟩
  have hne : k ≠ (tenant, id) := by
    rintro rfl
    have hnew := (Table.insert_eq_some.mp hheld.ledger).1
    rw [Table.get?_eq_none.mpr hnew] at hrow
    cases hrow
  rw [Table.get?_insert hheld.ledger, if_neg hne]
  exact hrow

theorem keeps_finish (tenant id : String) (settle : Bool) :
    db.Keeps (db.finish tenant id settle) := by
  obtain hdone | ⟨row, hrow, hstatus⟩ := finish_cases db tenant id
  · rw [finish_of_done hdone]
    exact keeps_refl db
  intro k r hr
  rw [finish_get? hrow hstatus]
  by_cases hk : k = (tenant, id)
  · rw [hk, hrow] at hr
    rw [if_pos hk, ← Option.some.inj hr]
    exact ⟨row.done settle, rfl, rfl, rfl, fun hne => absurd hstatus hne⟩
  · rw [if_neg hk]
    exact ⟨r, hr, rfl, rfl, fun _ => rfl⟩

/-- A second settlement or release of a reservation does nothing. -/
theorem finish_finish (db : QuotaDb) (tenant id : String) (settle again : Bool) :
    (db.finish tenant id settle).finish tenant id again = db.finish tenant id settle := by
  apply finish_of_done
  intro r hr
  obtain hdone | ⟨row, hrow, hstatus⟩ := finish_cases db tenant id
  · rw [finish_of_done hdone] at hr
    exact hdone r hr
  rw [finish_get? hrow hstatus, if_pos rfl] at hr
  rw [← Option.some.inj hr]
  cases settle <;> exact Status.noConfusion

end Finish

inductive QuotaCall
  | reserve (tenant id : String) (req : Request)
  | settle (tenant id : String)
  | release (tenant id : String)
  | releaseExpired (tenant : String) (ttl : ℕ) (now : Int)

/-- A call at fixed caps; a reservation that raises leaves the tables as they are. -/
def serve (quota : String → JobQuota) (db : QuotaDb) : QuotaCall → QuotaDb
  | .reserve tenant id req => (db.reserve (quota tenant) tenant id req).getD db
  | .settle tenant id => db.settle tenant id
  | .release tenant id => db.release tenant id
  | .releaseExpired tenant ttl now => db.releaseExpired tenant ttl now

def QuotaDb.empty : QuotaDb := ⟨.empty, .empty⟩

theorem empty_accounted (quota : String → JobQuota) : QuotaDb.empty.Accounted quota where
  reserved := fun _ _ c => by cases c <;> rfl
  spent := fun _ _ c => by cases c <;> rfl
  capped := fun _ _ c => by cases c <;> exact Nat.zero_le _
  present := fun k row hrow => by cases hrow

section Calls
variable {quota : String → JobQuota} (hfits : ∀ tenant, (quota tenant).Fits)
include hfits

theorem serve_step (db : QuotaDb) (call : QuotaCall) :
    (db.Accounted quota → (serve quota db call).Accounted quota) ∧
      db.Keeps (serve quota db call) := by
  cases call with
  | reserve tenant id req =>
    simp only [serve]
    cases ht : db.reserve (quota tenant) tenant id req with
    | none => exact ⟨fun h => h, keeps_refl db⟩
    | some t => exact ⟨fun h => accounted_reserve h hfits ht, keeps_reserve ht⟩
  | settle tenant id =>
    exact ⟨fun h => accounted_finish hfits h tenant id true, keeps_finish _ _ _⟩
  | release tenant id =>
    exact ⟨fun h => accounted_finish hfits h tenant id false, keeps_finish _ _ _⟩
  | releaseExpired tenant ttl now =>
    simp only [serve, QuotaDb.releaseExpired]
    generalize db.ledger.rows.filter _ = rows
    induction rows generalizing db with
    | nil => exact ⟨id, keeps_refl db⟩
    | cons row rows ih =>
      rw [List.foldl_cons]
      split
      · obtain ⟨haccounted, hkeeps⟩ := ih (db.release tenant row.1.2)
        exact ⟨fun h => haccounted (accounted_finish hfits h tenant row.1.2 false),
          (keeps_finish tenant row.1.2 false).trans hkeeps⟩
      · exact ih db

/-- The run lemma of `serve_step`. -/
theorem serve_run (calls : List QuotaCall) (db : QuotaDb) :
    (db.Accounted quota → (calls.foldl (serve quota) db).Accounted quota) ∧
      db.Keeps (calls.foldl (serve quota) db) := by
  induction calls generalizing db with
  | nil => exact ⟨id, keeps_refl db⟩
  | cons call calls ih =>
    obtain ⟨hstep, hkeeps⟩ := serve_step hfits db call
    obtain ⟨hrun, hkeeps'⟩ := ih (serve quota db call)
    exact ⟨fun h => hrun (hstep h), hkeeps.trans hkeeps'⟩

/-- In every sequence of calls by any tenants at fixed caps that fit: the reserved and spent
columns of every week are the sums of its reserved and of its settled reservations, and together
within the caps; what is subtracted for a reservation is there; a second settlement or release does
nothing; and later calls keep every reservation's week and amounts, and its status once it is
final. -/
theorem quota_accounting (calls later : List QuotaCall) :
    let db := calls.foldl (serve quota) .empty
    (∀ tenant week c,
      (db.weekRow tenant week).reserved c = db.total .reserved tenant week c ∧
      (db.weekRow tenant week).spent c = db.total .settled tenant week c ∧
      (db.weekRow tenant week).spent c + (db.weekRow tenant week).reserved c ≤
        (quota tenant).cap c) ∧
    (∀ tenant id row, db.ledger.get? (tenant, id) = some row → row.status = .reserved →
      ∀ c, row.amounts.get c ≤ (db.weekRow tenant row.week).reserved c) ∧
    (∀ tenant id settle again, (db.finish tenant id settle).finish tenant id again =
      db.finish tenant id settle) ∧
    db.Keeps (later.foldl (serve quota) db) := by
  intro db
  have haccounted : db.Accounted quota :=
    (serve_run hfits calls .empty).1 (empty_accounted quota)
  refine ⟨fun tenant week c => ?_, fun tenant id row hrow hstatus c => ?_, finish_finish db,
    (serve_run hfits later db).2⟩
  · exact ⟨haccounted.reserved tenant week c, haccounted.spent tenant week c,
      haccounted.capped tenant week c⟩
  · exact haccounted.le_reserved hrow hstatus c

end Calls

/-- A practice hex job is reserved and settled, and a second one reserved. -/
def hexCalls : List QuotaCall :=
  let req : Request := ⟨"2026-W01", "job", .practiceHex, 4, some "docs", 0⟩
  [.reserve "local" "a" req, .settle "local" "a",
    .reserve "local" "b" { req with taskClass := some "tests" }]

theorem quota_accounting_hex :
    let db := hexCalls.foldl (serve fun _ => {}) .empty
    (db.weekRow "local" "2026-W01").reserved .hexTokens = 4 ∧
    (db.weekRow "local" "2026-W01").reserved .hexTokens =
      db.total .reserved "local" "2026-W01" .hexTokens := by
  refine ⟨by decide +kernel, ?_⟩
  have hfits : ∀ _ : String, ({} : JobQuota).Fits := fun _ => by
    unfold JobQuota.Fits
    decide
  exact ((quota_accounting hfits hexCalls []).1 "local" "2026-W01" .hexTokens).1

/-- Past the largest INTEGER the column is a REAL, and loses what the ledger has. -/
theorem real_column_drifts :
    let quota : JobQuota := { weeklyTokenCap := 2 * maxInteger }
    let req (tokens : Int) : Request := ⟨"2026-W01", "job", .recertifier, tokens, none, 0⟩
    let db := [QuotaCall.reserve "local" "a" (req maxInteger), .reserve "local" "b" (req 1),
      .reserve "local" "c" (req 1)].foldl (serve fun _ => quota) .empty
    (db.weekRow "local" "2026-W01").reserved .tokens = maxInteger + 1 ∧
      db.total .reserved "local" "2026-W01" .tokens = maxInteger + 2 := by
  decide +kernel

end Recertia.Quota
