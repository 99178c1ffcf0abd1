import Recertia.Memory.AffordanceImport

/-! When a record is committed, and what it adds to the counters. -/
namespace Recertia.Affordance

open Sql Fallible
open Json (LoadError PyFloat)

/-- Whether a record touches the row of a counter, and if so whether it adds one to it. -/
def Record.mark? : Record → Counter → Option Bool
  | .tool r, .invocations name => if name = r.tool then some true else none
  | .tool r, .failures name => if name = r.tool then some (!r.ok) else none
  | .conflict c, .conflicts key => if key = (c.kind, c.rid) then some true else none
  | .conflict c, .timeouts key => if key = (c.kind, c.rid) then some c.timedOut else none
  | _, _ => none

/-- The record's own values can be stored. -/
def Record.bindable : Record → Bool
  | .tool r => encodable r.tool && storable (.float r.durationS) && storable (.float r.costUsd) &&
    encodable (r.errorSignature.getD [])
  | .conflict c => encodable c.kind && encodable c.rid && fits c.waitedMs

variable {P : Platform} {cap : SampleCap}

theorem recordSignature_isOk {tool signature : Str} {seq : ℕ}
    {signatures : Table (Str × Str) SignatureRow} :
    (∃ signatures', recordSignature P cap tool seq signatures signature = .ok signatures') ↔
      encodable signature = true := by
  unfold recordSignature
  simp only [bind_isOk, liftBind_eq_ok, pure_eq_ok, exists_eq', and_true]
  exact bindText_isOk

theorem bindable_tool {r : ToolResult} : (Record.tool r).bindable = true ↔
    encodable r.tool = true ∧ (storable (.float r.durationS) = true ∧
      storable (.float r.costUsd) = true) ∧ encodable (r.errorSignature.getD []) = true := by
  simp only [Record.bindable, Bool.and_eq_true, and_assoc]

theorem bindable_conflict {c : ResourceConflict} : (Record.conflict c).bindable = true ↔
    encodable c.kind = true ∧ encodable c.rid = true ∧ storable (.int c.waitedMs) = true := by
  simp only [Record.bindable, Bool.and_eq_true, and_assoc]
  rfl

theorem recordTool_isOk {r : ToolResult} {rows : Rows} :
    (∃ rows', recordTool P cap r rows = .ok rows') ↔ (Record.tool r).bindable = true := by
  rw [bindable_tool, ← bindText_isOk, ← @insertSample_isOk r.tool]
  unfold recordTool
  simp only [bind_isOk, liftBind_eq_ok]
  have hwritten (tool : Str) (h : bindText r.tool = .ok tool) : tool = r.tool := bindText_eq_ok h
  cases hsignature : r.errorSignature with
  | none =>
    constructor
    · rintro ⟨tool, htool, sample, hsample, -⟩
      rw [hwritten tool htool] at hsample
      exact ⟨⟨tool, htool⟩, ⟨sample, hsample⟩, rfl⟩
    · rintro ⟨⟨tool, htool⟩, ⟨sample, hsample⟩, -⟩
      exact ⟨tool, htool, sample, hwritten tool htool ▸ hsample, _, rfl⟩
  | some signature =>
    cases signature with
    | nil =>
      constructor
      · rintro ⟨tool, htool, sample, hsample, -⟩
        rw [hwritten tool htool] at hsample
        exact ⟨⟨tool, htool⟩, ⟨sample, hsample⟩, rfl⟩
      · rintro ⟨⟨tool, htool⟩, ⟨sample, hsample⟩, -⟩
        exact ⟨tool, htool, sample, hwritten tool htool ▸ hsample, _, rfl⟩
    | cons c cs =>
      constructor
      · rintro ⟨tool, htool, sample, hsample, rows', hrest⟩
        obtain ⟨signatures, hsignatures, -⟩ := bind_eq_ok.mp hrest
        rw [hwritten tool htool] at hsample
        exact ⟨⟨tool, htool⟩, ⟨sample, hsample⟩, recordSignature_isOk.mp ⟨signatures, hsignatures⟩⟩
      · rintro ⟨⟨tool, htool⟩, ⟨sample, hsample⟩, hencodable⟩
        refine ⟨tool, htool, sample, hwritten tool htool ▸ hsample, bind_isOk.mpr ?_⟩
        obtain ⟨signatures, hsignatures⟩ := recordSignature_isOk.mpr hencodable
        exact ⟨signatures, hsignatures, _, rfl⟩

theorem recordConflict_isOk {c : ResourceConflict} {rows : Rows} :
    (∃ rows', recordConflict P cap c rows = .ok rows') ↔ (Record.conflict c).bindable = true := by
  rw [bindable_conflict, ← bindText_isOk, ← bindText_isOk, ← bindNotNull_isOk]
  unfold recordConflict
  simp only [bind_isOk, liftBind_eq_ok]
  constructor
  · rintro ⟨kind, hkind, rid, hrid, wait, hwait, -⟩
    exact ⟨⟨kind, hkind⟩, ⟨rid, hrid⟩, ⟨wait, hwait⟩⟩
  · rintro ⟨⟨kind, hkind⟩, ⟨rid, hrid⟩, ⟨wait, hwait⟩⟩
    exact ⟨kind, hkind, rid, hrid, wait, hwait, _, rfl⟩

/-- A record is refused for its own values only. -/
theorem commit_isOk {r : Record} {rows : Rows} :
    (∃ rows', r.commit P cap rows = .ok rows') ↔ r.bindable = true := by
  cases r with
  | tool r => exact recordTool_isOk
  | conflict c => exact recordConflict_isOk

theorem recordTool_eq_ok {r : ToolResult} {rows rows' : Rows}
    (h : recordTool P cap r rows = .ok rows') :
    rows'.tools = rows.tools.upsert r.tool ⟨.ofInt 1, .ofInt (!r.ok).toNat, 1⟩ (fun row =>
        ⟨row.invocations.plus P.sql true, row.failures.plus P.sql (!r.ok), row.seq + 1⟩) ∧
      rows'.resources = rows.resources := by
  unfold recordTool at h
  simp only [bind_eq_ok, liftBind_eq_ok] at h
  obtain ⟨tool, htool, sample, hsample, h⟩ := h
  have hname : tool = r.tool := bindText_eq_ok htool
  subst hname
  split at h
  · cases h
    exact ⟨rfl, rfl⟩
  · cases h
    exact ⟨rfl, rfl⟩
  · obtain ⟨signatures, -, h⟩ := bind_eq_ok.mp h
    cases h
    exact ⟨rfl, rfl⟩

theorem recordConflict_eq_ok {c : ResourceConflict} {rows rows' : Rows}
    (h : recordConflict P cap c rows = .ok rows') :
    rows'.resources =
        rows.resources.upsert (c.kind, c.rid) ⟨.ofInt 1, .ofInt c.timedOut.toNat, .ofInt 1⟩
          (fun row => ⟨row.conflicts.plus P.sql true, row.timeouts.plus P.sql c.timedOut,
            if 0 < c.waitedMs then .ofInt 1 else row.observedCeiling⟩) ∧
      rows'.tools = rows.tools := by
  unfold recordConflict at h
  simp only [bind_eq_ok, liftBind_eq_ok] at h
  obtain ⟨kind, hkind, rid, hrid, wait, hwait, h⟩ := h
  cases h
  have hkind' : kind = c.kind := bindText_eq_ok hkind
  have hrid' : rid = c.rid := bindText_eq_ok hrid
  subst hkind' hrid'
  exact ⟨rfl, rfl⟩

/-- A new row starts a counter as one more than zero does. -/
theorem value_upsert {K V : Type} [DecidableEq K] (t : Table K V) (k k' : K) (new : V) (f : V → V)
    (column : V → Value) (one : Bool) (hnew : column new = .ofInt one.toNat)
    (hf : ∀ v, column (f v) = (column v).plus P.sql one) :
    (((t.upsert k new f).get? k').map column).getD (.ofInt 0) =
      if k' = k then (((t.get? k').map column).getD (.ofInt 0)).plus P.sql one
      else ((t.get? k').map column).getD (.ofInt 0) := by
  rw [Table.get?_upsert]
  by_cases hk : k' = k
  · rw [if_pos hk, if_pos hk, hk]
    cases t.get? k with
    | none =>
      have hzero : (Value.ofInt 0).plus P.sql one = .ofInt one.toNat := by
        cases one <;> rfl
      exact hnew.trans hzero.symm
    | some v => exact hf v
  · rw [if_neg hk, if_neg hk]

/-- A record adds to the counters that it marks, and to no other. -/
theorem value_commit {r : Record} {rows rows' : Rows} (h : r.commit P cap rows = .ok rows')
    (k : Counter) :
    rows'.value k = (r.mark? k).elim (rows.value k) ((rows.value k).plus P.sql) := by
  cases r with
  | tool r =>
    obtain ⟨htools, hresources⟩ := recordTool_eq_ok h
    cases k with
    | invocations name =>
      rw [Rows.value, htools, value_upsert rows.tools r.tool name _ _ ToolRow.invocations true rfl
        fun v => rfl, Record.mark?]
      split <;> rfl
    | failures name =>
      rw [Rows.value, htools, value_upsert rows.tools r.tool name _ _ ToolRow.failures (!r.ok) rfl
        fun v => rfl, Record.mark?]
      split <;> rfl
    | conflicts key =>
      rw [Rows.value, hresources]
      rfl
    | timeouts key =>
      rw [Rows.value, hresources]
      rfl
  | conflict c =>
    obtain ⟨hresources, htools⟩ := recordConflict_eq_ok h
    cases k with
    | invocations name =>
      rw [Rows.value, htools]
      rfl
    | failures name =>
      rw [Rows.value, htools]
      rfl
    | conflicts key =>
      rw [Rows.value, hresources, value_upsert rows.resources (c.kind, c.rid) key _ _
        ResourceRow.conflicts true rfl fun v => rfl, Record.mark?]
      split <;> rfl
    | timeouts key =>
      rw [Rows.value, hresources, value_upsert rows.resources (c.kind, c.rid) key _ _
        ResourceRow.timeouts c.timedOut rfl fun v => rfl, Record.mark?]
      split <;> rfl

end Recertia.Affordance
