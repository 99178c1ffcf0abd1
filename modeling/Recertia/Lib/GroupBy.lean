import Mathlib.Data.List.Dedup
import Recertia.Lib.Table

/-! Grouped queries, and the merge of their rows into a table of records. -/
namespace GroupBy
variable {α K β γ : Type*} [DecidableEq K]

/-- The rows of a group. -/
def group (key : α → Option K) (rows : List α) (k : K) : List α :=
  rows.filter fun r => key r = some k

/-- `SELECT key, f(..) ... WHERE key IS NOT NULL GROUP BY key`: a row for each key that occurs. -/
def groups (key : α → Option K) (f : List α → β) (rows : List α) : List (K × β) :=
  (rows.filterMap key).dedup.map fun k => (k, f (group key rows k))

/-- `out.setdefault(k, blank)`, with the slot that `set` writes filled by each row. -/
def mergeInto (set : β → γ → γ) (blank : γ) (out : Table K γ) (rows : List (K × β)) : Table K γ :=
  rows.foldl (fun out row => out.upsert row.1 (set row.2 blank) (set row.2)) out

theorem group_eq_nil {key : α → Option K} {rows : List α} {k : K} :
    group key rows k = [] ↔ k ∉ rows.filterMap key := by
  rw [group, List.filter_eq_nil_iff, List.mem_filterMap]
  constructor
  · rintro h ⟨r, hr, hk⟩
    exact h r hr (decide_eq_true hk)
  · intro h r hr hk
    exact h ⟨r, hr, of_decide_eq_true hk⟩

theorem groups_nodup (key : α → Option K) (f : List α → β) (rows : List α) :
    ((groups key f rows).map Prod.fst).Nodup := by
  have hkeys : (groups key f rows).map Prod.fst = (rows.filterMap key).dedup := by
    rw [groups, List.map_map]
    exact List.map_id _
  rw [hkeys]
  exact List.nodup_dedup _

theorem mem_groups {key : α → Option K} {f : List α → β} {rows : List α} {k : K} {b : β} :
    (k, b) ∈ groups key f rows ↔ group key rows k ≠ [] ∧ b = f (group key rows k) := by
  have hkey : group key rows k ≠ [] ↔ k ∈ rows.filterMap key := by
    rw [Ne, group_eq_nil, not_not]
  rw [hkey, groups, List.mem_map]
  constructor
  · rintro ⟨k', hk', heq⟩
    obtain ⟨rfl, rfl⟩ := Prod.mk.inj heq
    exact ⟨List.mem_dedup.mp hk', rfl⟩
  · rintro ⟨hk, rfl⟩
    exact ⟨k, List.mem_dedup.mpr hk, rfl⟩

section Merge
variable (set : β → γ → γ) (blank : γ)

/-- A key that no row names keeps its record. -/
theorem get?_mergeInto_of_not_mem {rows : List (K × β)} {k : K} (out : Table K γ)
    (h : k ∉ rows.map Prod.fst) : (mergeInto set blank out rows).get? k = out.get? k := by
  induction rows generalizing out with
  | nil => rfl
  | cons row rows ih =>
    rw [List.map_cons, List.mem_cons, not_or] at h
    have hrest := ih (out.upsert row.1 (set row.2 blank) (set row.2)) h.2
    rw [mergeInto, List.foldl_cons, ← mergeInto, hrest, Table.get?_upsert, if_neg h.1]

/-- A key that one row names has its slot filled by that row. -/
theorem get?_mergeInto_of_mem {rows : List (K × β)} {k : K} {b : β} (out : Table K γ)
    (hrows : (rows.map Prod.fst).Nodup) (h : (k, b) ∈ rows) :
    (mergeInto set blank out rows).get? k = some (set b ((out.get? k).getD blank)) := by
  induction rows generalizing out with
  | nil => exact (List.not_mem_nil h).elim
  | cons row rows ih =>
    rw [List.map_cons, List.nodup_cons] at hrows
    rw [mergeInto, List.foldl_cons, ← mergeInto]
    obtain hrow | hrest := List.mem_cons.mp h
    · subst hrow
      rw [get?_mergeInto_of_not_mem set blank _ hrows.1, Table.get?_upsert, if_pos rfl]
      cases out.get? k <;> rfl
    · have hne : k ≠ row.1 := by
        rintro rfl
        exact hrows.1 (List.mem_map.mpr ⟨(row.1, b), hrest, rfl⟩)
      rw [ih _ hrows.2 hrest, Table.get?_upsert, if_neg hne]

/-- What the merge of the groups of a query leaves under a key. -/
theorem get?_mergeInto_groups (key : α → Option K) (f : List α → β) (rows : List α)
    (out : Table K γ) (k : K) :
    (mergeInto set blank out (groups key f rows)).get? k =
      if group key rows k = [] then out.get? k
      else some (set (f (group key rows k)) ((out.get? k).getD blank)) := by
  split
  · rename_i hnil
    apply get?_mergeInto_of_not_mem
    intro hk
    obtain ⟨⟨k', b⟩, hrow, rfl⟩ := List.mem_map.mp hk
    exact (mem_groups.mp hrow).1 hnil
  · rename_i hsome
    exact get?_mergeInto_of_mem set blank out (groups_nodup key f rows)
      (mem_groups.mpr ⟨hsome, rfl⟩)

end Merge

end GroupBy
