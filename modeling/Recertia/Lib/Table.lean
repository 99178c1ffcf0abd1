import Mathlib.Data.List.Nodup
import Mathlib.Data.List.Perm.Subperm

/-! Tables with a primary key, and the statements that change one. -/

/-- Rows in the order of their insertion, no two with one key. -/
structure Table (K V : Type*) where
  rows : List (K × V)
  nodup : (rows.map Prod.fst).Nodup

namespace Table
variable {K V : Type*}

def empty : Table K V := ⟨[], List.nodup_nil⟩

def keys (t : Table K V) : List K := t.rows.map Prod.fst

theorem mem_keys {t : Table K V} {k : K} : k ∈ t.keys ↔ ∃ v, (k, v) ∈ t.rows := by
  constructor
  · intro h
    obtain ⟨row, hrow, hk⟩ := List.mem_map.mp h
    exact ⟨row.2, hk ▸ hrow⟩
  · rintro ⟨v, hv⟩
    exact List.mem_map.mpr ⟨(k, v), hv, rfl⟩

/-- A key has one row. -/
theorem row_unique {t : Table K V} {k : K} {v w : V} (hv : (k, v) ∈ t.rows)
    (hw : (k, w) ∈ t.rows) : v = w := by
  have heq : (k, v) = (k, w) := List.inj_on_of_nodup_map t.nodup hv hw rfl
  exact congrArg Prod.snd heq

theorem nodup_append {t : Table K V} {k : K} (v : V) (h : k ∉ t.keys) :
    ((t.rows ++ [(k, v)]).map Prod.fst).Nodup := by
  rw [List.map_append, List.nodup_append]
  refine ⟨t.nodup, List.nodup_singleton _, fun a ha b hb => ?_⟩
  have hbk : b = k := List.mem_singleton.mp hb
  intro hab
  exact h (hbk ▸ hab ▸ ha)

theorem eq_of_rows {t u : Table K V} (h : t.rows = u.rows) : t = u := by
  cases t
  cases u
  cases h
  rfl

/-- The table with a value computed from each row. -/
def mapValues {W : Type*} (f : V → W) (t : Table K V) : Table K W where
  rows := t.rows.map fun row => (row.1, f row.2)
  nodup := by
    rw [List.map_map]
    exact t.nodup

variable [DecidableEq K]

/-- `INSERT`, which fails on a key that is there. -/
def insert (t : Table K V) (k : K) (v : V) : Option (Table K V) :=
  if h : k ∈ t.keys then none else some ⟨t.rows ++ [(k, v)], nodup_append v h⟩

/-- `INSERT ... ON CONFLICT DO NOTHING` -/
def insertOrIgnore (t : Table K V) (k : K) (v : V) : Table K V := (t.insert k v).getD t

/-- `UPDATE ... WHERE` -/
def update (t : Table K V) (p : K → V → Bool) (f : V → V) : Table K V where
  rows := t.rows.map fun row => if p row.1 row.2 then (row.1, f row.2) else row
  nodup := by
    have hkeys : (t.rows.map fun row => if p row.1 row.2 then (row.1, f row.2) else row).map
        Prod.fst = t.rows.map Prod.fst := by
      rw [List.map_map]
      apply List.map_congr_left
      intro row _
      simp only [Function.comp_apply]
      split <;> rfl
    rw [hkeys]
    exact t.nodup

/-- `DELETE ... WHERE` -/
def delete (t : Table K V) (p : K → V → Bool) : Table K V where
  rows := t.rows.filter fun row => !p row.1 row.2
  nodup := t.nodup.sublist (List.filter_sublist.map Prod.fst)

/-- `INSERT ... ON CONFLICT DO UPDATE` -/
def upsert (t : Table K V) (k : K) (v : V) (f : V → V) : Table K V :=
  (t.insert k v).getD (t.update (fun k' _ => k' = k) f)

theorem insert_eq_some {t t' : Table K V} {k : K} {v : V} :
    t.insert k v = some t' ↔ k ∉ t.keys ∧ t'.rows = t.rows ++ [(k, v)] := by
  unfold insert
  split
  · rename_i h
    constructor
    · intro hnone
      cases hnone
    · intro hnew
      exact absurd h hnew.1
  · rename_i h
    constructor
    · intro hsome
      rw [← Option.some.inj hsome]
      exact ⟨h, rfl⟩
    · rintro ⟨-, hrows⟩
      obtain ⟨rows, nodup⟩ := t'
      have hrows' : rows = t.rows ++ [(k, v)] := hrows
      subst hrows'
      rfl

theorem insert_eq_none {t : Table K V} {k : K} {v : V} : t.insert k v = none ↔ k ∈ t.keys := by
  unfold insert
  split
  · rename_i h
    exact ⟨fun _ => h, fun _ => rfl⟩
  · rename_i h
    constructor
    · intro hsome
      cases hsome
    · intro hmem
      exact absurd hmem h

theorem mem_insertOrIgnore {t : Table K V} {k : K} {v : V} {row : K × V} (h : row ∈ t.rows) :
    row ∈ (t.insertOrIgnore k v).rows := by
  unfold insertOrIgnore
  cases hinsert : t.insert k v with
  | none => exact h
  | some t' =>
    show row ∈ t'.rows
    rw [(insert_eq_some.mp hinsert).2]
    exact List.mem_append_left _ h

/-- Behind an `INSERT` that ignores conflicts the key is there. -/
theorem key_mem_insertOrIgnore (t : Table K V) (k : K) (v : V) :
    k ∈ (t.insertOrIgnore k v).keys := by
  unfold insertOrIgnore
  cases hinsert : t.insert k v with
  | none => exact insert_eq_none.mp hinsert
  | some t' =>
    have hrows := (insert_eq_some.mp hinsert).2
    exact mem_keys.mpr ⟨v, by rw [Option.getD_some, hrows]; simp⟩

/-- The row of a key. -/
def get? (t : Table K V) (k : K) : Option V :=
  (t.rows.find? fun row => decide (row.1 = k)).map Prod.snd

/-- `SELECT COUNT(*) ... WHERE` -/
def count (t : Table K V) (p : K → V → Bool) : ℕ := t.rows.countP fun row => p row.1 row.2

theorem get?_eq_some {t : Table K V} {k : K} {v : V} :
    t.get? k = some v ↔ (k, v) ∈ t.rows := by
  unfold get?
  constructor
  · intro h
    obtain ⟨row, hfind, rfl⟩ := Option.map_eq_some_iff.mp h
    have hk : row.1 = k := by simpa using List.find?_some hfind
    have hmem := List.mem_of_find?_eq_some hfind
    rw [← hk]
    exact hmem
  · intro h
    cases hfind : t.rows.find? (fun row => decide (row.1 = k)) with
    | none =>
      have hne := List.find?_eq_none.mp hfind (k, v) h
      simp at hne
    | some row =>
      have hk : row.1 = k := by simpa using List.find?_some hfind
      have hmem : (k, row.2) ∈ t.rows := hk ▸ List.mem_of_find?_eq_some hfind
      rw [Option.map_some, row_unique hmem h]

theorem get?_eq_none {t : Table K V} {k : K} : t.get? k = none ↔ k ∉ t.keys := by
  rw [Option.eq_none_iff_forall_ne_some, mem_keys]
  constructor
  · rintro h ⟨v, hv⟩
    exact h v (get?_eq_some.mpr hv)
  · intro h v hv
    exact h ⟨v, get?_eq_some.mp hv⟩

/-- An update acts on each row alone. -/
theorem get?_update (t : Table K V) (p : K → V → Bool) (f : V → V) (k : K) :
    (t.update p f).get? k = (t.get? k).map fun v => if p k v then f v else v := by
  apply Option.ext
  intro w
  rw [get?_eq_some, Option.map_eq_some_iff]
  constructor
  · intro h
    obtain ⟨⟨k', v⟩, hmem, heq⟩ := List.mem_map.mp h
    have hk : k' = k := by
      have hfst := congrArg Prod.fst heq
      split at hfst <;> exact hfst
    subst hk
    refine ⟨v, get?_eq_some.mpr hmem, ?_⟩
    calc (if p k' v then f v else v) = (if p k' v then (k', f v) else (k', v)).2 := by
          split <;> rfl
      _ = w := congrArg Prod.snd heq
  · rintro ⟨v, hv, rfl⟩
    refine List.mem_map.mpr ⟨(k, v), get?_eq_some.mp hv, ?_⟩
    dsimp only
    split <;> rfl

/-- A deletion looks at each row alone. -/
theorem get?_delete (t : Table K V) (p : K → V → Bool) (k : K) :
    (t.delete p).get? k = (t.get? k).filter fun v => !p k v := by
  apply Option.ext
  intro v
  rw [get?_eq_some, Option.filter_eq_some_iff, get?_eq_some]
  exact List.mem_filter

theorem get?_mapValues {W : Type*} (f : V → W) (t : Table K V) (k : K) :
    (t.mapValues f).get? k = (t.get? k).map f := by
  apply Option.ext
  intro w
  rw [get?_eq_some, Option.map_eq_some_iff]
  constructor
  · intro h
    obtain ⟨⟨k', v⟩, hmem, heq⟩ := List.mem_map.mp h
    obtain ⟨rfl, rfl⟩ := Prod.mk.inj heq
    exact ⟨v, get?_eq_some.mpr hmem, rfl⟩
  · rintro ⟨v, hv, rfl⟩
    exact List.mem_map.mpr ⟨(k, v), get?_eq_some.mp hv, rfl⟩

theorem get?_of_rows_append {t t' : Table K V} {k : K} {v : V}
    (hrows : t'.rows = t.rows ++ [(k, v)]) (k' : K) :
    t'.get? k' = if k' = k then some v else t.get? k' := by
  apply Option.ext
  intro w
  rw [get?_eq_some, hrows, List.mem_append, List.mem_singleton, Prod.mk.injEq]
  by_cases hk : k' = k
  · have hnew : k ∉ t.keys := by
      have hnodup := t'.nodup
      rw [hrows, List.map_append, List.nodup_append] at hnodup
      intro hmem
      exact hnodup.2.2 k hmem k (by simp) rfl
    rw [if_pos hk]
    constructor
    · rintro (hmem | ⟨-, rfl⟩)
      · exact absurd (mem_keys.mpr ⟨w, hk ▸ hmem⟩) hnew
      · rfl
    · intro hw
      exact Or.inr ⟨hk, (Option.some.inj hw).symm⟩
  · rw [if_neg hk, get?_eq_some]
    constructor
    · rintro (hmem | ⟨heq, -⟩)
      · exact hmem
      · exact absurd heq hk
    · exact Or.inl

theorem get?_insert {t t' : Table K V} {k : K} {v : V} (h : t.insert k v = some t') (k' : K) :
    t'.get? k' = if k' = k then some v else t.get? k' :=
  get?_of_rows_append (insert_eq_some.mp h).2 k'

theorem get?_insertOrIgnore (t : Table K V) (k : K) (v : V) (k' : K) :
    (t.insertOrIgnore k v).get? k' = if k' = k then some ((t.get? k).getD v) else t.get? k' := by
  unfold insertOrIgnore
  cases hinsert : t.insert k v with
  | some t' =>
    have hnone : t.get? k = none := get?_eq_none.mpr (insert_eq_some.mp hinsert).1
    rw [Option.getD_some, get?_insert hinsert, hnone, Option.getD_none]
  | none =>
    rw [Option.getD_none]
    split
    · rename_i hk
      obtain ⟨w, hw⟩ := mem_keys.mp (insert_eq_none.mp hinsert)
      rw [hk, get?_eq_some.mpr hw, Option.getD_some]
    · rfl

theorem get?_insertOrIgnore_new {t : Table K V} {k : K} (hnone : t.get? k = none) (v : V) (k' : K) :
    (t.insertOrIgnore k v).get? k' = if k' = k then some v else t.get? k' := by
  rw [get?_insertOrIgnore, hnone, Option.getD_none]

theorem get?_upsert (t : Table K V) (k : K) (v : V) (f : V → V) (k' : K) :
    (t.upsert k v f).get? k' =
      if k' = k then some (((t.get? k).map f).getD v) else t.get? k' := by
  unfold upsert
  cases hinsert : t.insert k v with
  | some t' =>
    have hnone : t.get? k = none := get?_eq_none.mpr (insert_eq_some.mp hinsert).1
    rw [Option.getD_some, get?_insert hinsert, hnone, Option.map_none, Option.getD_none]
  | none =>
    obtain ⟨w, hw⟩ := mem_keys.mp (insert_eq_none.mp hinsert)
    rw [Option.getD_none, get?_update]
    by_cases hk : k' = k
    · rw [if_pos hk, hk, get?_eq_some.mpr hw]
      simp
    · rw [if_neg hk]
      cases t.get? k' <;> simp [hk]

omit [DecidableEq K] in
theorem mem_keys_delete {t : Table K V} {p : K → V → Bool} {k : K} :
    k ∈ (t.delete p).keys ↔ ∃ v, (k, v) ∈ t.rows ∧ p k v = false := by
  simp only [keys, delete, List.mem_map, List.mem_filter, Bool.not_eq_true']
  constructor
  · rintro ⟨row, ⟨hrow, hp⟩, rfl⟩
    exact ⟨row.2, hrow, hp⟩
  · rintro ⟨v, hrow, hp⟩
    exact ⟨(k, v), ⟨hrow, hp⟩, rfl⟩

/-- A delete of one key changes a table that has the key. -/
theorem delete_eq_self {t : Table K V} {k : K} :
    (t.delete fun k' _ => k' = k) = t ↔ k ∉ t.keys := by
  constructor
  · intro h hk
    rw [← h, mem_keys_delete] at hk
    obtain ⟨v, -, hv⟩ := hk
    exact of_decide_eq_false hv rfl
  · intro hk
    apply eq_of_rows
    apply List.filter_eq_self.mpr
    intro row hrow
    have hne : row.1 ≠ k := fun heq => hk (mem_keys.mpr ⟨row.2, heq ▸ hrow⟩)
    simp [hne]

/-- A row that is deleted and inserted again comes last. -/
theorem rows_reinsert (t : Table K V) (k : K) (v : V) :
    ((t.delete fun k' _ => k' = k).insertOrIgnore k v).rows =
      (t.rows.filter fun row => row.1 ≠ k) ++ [(k, v)] := by
  have hnew : k ∉ (t.delete fun k' _ => k' = k).keys := by
    rw [mem_keys_delete]
    rintro ⟨w, -, hw⟩
    exact of_decide_eq_false hw rfl
  rw [insertOrIgnore, insert, dif_neg hnew, Option.getD_some]
  change t.rows.filter _ ++ [(k, v)] = _
  congr 1
  apply List.filter_congr
  intro row _
  exact (decide_not ..).symm

theorem reinsert_eq_self {t : Table K V} {k : K} {v : V} :
    (t.delete fun k' _ => k' = k).insertOrIgnore k v = t ↔ t.rows.getLast? = some (k, v) := by
  constructor
  · intro h
    rw [← h, rows_reinsert]
    exact List.getLast?_concat ..
  · intro h
    obtain ⟨rows, hrows⟩ := List.getLast?_eq_some_iff.mp h
    have hnodup := t.nodup
    rw [hrows, List.map_append, List.nodup_append] at hnodup
    apply eq_of_rows
    have hothers : rows.filter (fun row => row.1 ≠ k) = rows := by
      apply List.filter_eq_self.mpr
      intro row hrow
      exact decide_eq_true (hnodup.2.2 row.1 (List.mem_map_of_mem hrow) k (by simp))
    have hlast : [(k, v)].filter (fun row => row.1 ≠ k) = [] := by simp
    rw [rows_reinsert, hrows, List.filter_append, hothers, hlast, List.append_nil]

theorem mapValues_reinsert {W : Type*} (f : V → W) (t : Table K V) (k : K) (v : V) :
    ((t.delete fun k' _ => k' = k).insertOrIgnore k v).mapValues f =
      ((t.mapValues f).delete fun k' _ => k' = k).insertOrIgnore k (f v) := by
  apply eq_of_rows
  rw [rows_reinsert]
  change ((t.delete fun k' _ => k' = k).insertOrIgnore k v).rows.map _ =
    (t.rows.map _).filter _ ++ _
  rw [rows_reinsert, List.map_append, List.filter_map]
  rfl

/-- An upsert updates a row in its place, and a new row comes last. -/
theorem rows_upsert (t : Table K V) (k : K) (v : V) (f : V → V) :
    (t.upsert k v f).rows =
      if k ∈ t.keys then t.rows.map fun row => if row.1 = k then (row.1, f row.2) else row
      else t.rows ++ [(k, v)] := by
  unfold upsert insert
  split
  · change t.rows.map _ = _
    simp only [decide_eq_true_eq]
  · rfl

theorem keys_upsert_of_mem {t : Table K V} {k : K} (h : k ∈ t.keys) (v : V) (f : V → V) :
    (t.upsert k v f).keys = t.keys := by
  rw [keys, rows_upsert, if_pos h, List.map_map, keys]
  apply List.map_congr_left
  intro row _
  simp only [Function.comp_apply]
  split <;> rfl

theorem getLast?_keys_reinsert (t : Table K V) (k : K) (v : V) :
    ((t.delete fun k' _ => k' = k).insertOrIgnore k v).keys.getLast? = some k := by
  rw [keys, rows_reinsert, List.map_append]
  exact List.getLast?_concat ..

/-- To set the value of a key is to delete it and insert it again exactly where the key is new or
has the last row. -/
theorem upsert_eq_reinsert_iff {t : Table K V} {k : K} {v : V} :
    t.upsert k v (fun _ => v) = (t.delete fun k' _ => k' = k).insertOrIgnore k v ↔
      k ∉ t.keys ∨ t.keys.getLast? = some k := by
  by_cases hk : k ∈ t.keys
  · have hrows : (t.upsert k v fun _ => v).rows =
        t.rows.map fun row => if row.1 = k then (row.1, v) else row := by
      rw [rows_upsert, if_pos hk]
    constructor
    · intro h
      right
      rw [← keys_upsert_of_mem hk v fun _ => v, h]
      exact getLast?_keys_reinsert t k v
    · intro h
      have hlast : t.keys.getLast? = some k := h.resolve_left (not_not_intro hk)
      rw [keys, List.getLast?_map, Option.map_eq_some_iff] at hlast
      obtain ⟨⟨last, w⟩, hlast, hkey⟩ := hlast
      have hkey : last = k := hkey
      subst last
      obtain ⟨rows, ht⟩ := List.getLast?_eq_some_iff.mp hlast
      have hnodup := t.nodup
      rw [ht, List.map_append, List.nodup_append] at hnodup
      have hne : ∀ row ∈ rows, row.1 ≠ k := fun row hrow =>
        hnodup.2.2 row.1 (List.mem_map_of_mem hrow) k (by simp)
      have hmap : (rows.map fun row => if row.1 = k then (row.1, v) else row) = rows := by
        conv_rhs => rw [← List.map_id rows]
        exact List.map_congr_left fun row hrow => if_neg (hne row hrow)
      have hfilter : (rows.filter fun row => row.1 ≠ k) = rows :=
        List.filter_eq_self.mpr fun row hrow => decide_eq_true (hne row hrow)
      apply eq_of_rows
      rw [hrows, rows_reinsert, ht, List.map_append, List.filter_append, hmap, hfilter]
      simp
  · have hsame : (t.upsert k v fun _ => v) =
        (t.delete fun k' _ => k' = k).insertOrIgnore k v := by
      apply eq_of_rows
      rw [rows_upsert, if_neg hk, rows_reinsert, List.filter_eq_self.mpr]
      intro row hrow
      apply decide_eq_true
      rintro rfl
      exact hk (mem_keys.mpr ⟨row.2, hrow⟩)
    exact iff_of_true hsame (.inl hk)

omit [DecidableEq K] in
theorem count_eq_length (t : Table K V) (q : K → V → Bool) :
    t.count q = ((t.rows.filter fun row => q row.1 row.2).map Prod.fst).length := by
  rw [List.length_map, count, List.countP_eq_length_filter]

/-- A primary key counts its row once. -/
theorem count_key (t : Table K V) (k : K) :
    (t.count fun k' _ => k' = k) = if k ∈ t.keys then 1 else 0 := by
  have hkeys : (t.count fun k' _ => k' = k) = t.keys.count k := by
    rw [keys, List.count, List.countP_map]
    apply List.countP_congr
    intro row _
    simp
  rw [hkeys]
  exact t.nodup.count

/-- Rows under `q` that were under `q` before, but for those of `extra`, are at most that many
more than then. -/
theorem count_le {t t' : Table K V} {q : K → V → Bool} (extra : List K)
    (h : ∀ k v', t'.get? k = some v' → q k v' = true →
      k ∈ extra ∨ ∃ v, t.get? k = some v ∧ q k v = true) :
    t'.count q ≤ t.count q + extra.length := by
  rw [count_eq_length, count_eq_length, ← List.length_append]
  apply List.Subperm.length_le
  apply List.Nodup.subperm
  · exact t'.nodup.sublist (List.Sublist.map _ List.filter_sublist)
  · intro k hk
    obtain ⟨⟨k', v'⟩, hmem, rfl⟩ := List.mem_map.mp hk
    obtain ⟨hrow, hq⟩ := List.mem_filter.mp hmem
    rcases h k' v' (get?_eq_some.mpr hrow) hq with hextra | ⟨v, hv, hqv⟩
    · exact List.mem_append_right _ hextra
    · apply List.mem_append_left
      exact List.mem_map.mpr ⟨(k', v), List.mem_filter.mpr ⟨get?_eq_some.mp hv, hqv⟩, rfl⟩

/-- A row that comes under `q` while those under `q` stay is one more. -/
theorem count_lt {t t' : Table K V} {q : K → V → Bool} {k : K} {w : V}
    (hw : t'.get? k = some w) (hqw : q k w = true) (hnew : ∀ v, t.get? k = some v → q k v = false)
    (h : ∀ k v, t.get? k = some v → q k v = true → ∃ v', t'.get? k = some v' ∧ q k v' = true) :
    t.count q < t'.count q := by
  rw [count_eq_length, count_eq_length, ← Nat.succ_le_iff, Nat.succ_eq_add_one,
    ← List.length_cons (a := k)]
  apply List.Subperm.length_le
  apply List.Nodup.subperm
  · apply List.nodup_cons.mpr
    refine ⟨fun hmem => ?_, t.nodup.sublist (List.Sublist.map _ List.filter_sublist)⟩
    obtain ⟨row, hrow, rfl⟩ := List.mem_map.mp hmem
    obtain ⟨hrow, hq⟩ := List.mem_filter.mp hrow
    rw [hnew row.2 (get?_eq_some.mpr hrow)] at hq
    cases hq
  · intro k' hk'
    rcases List.mem_cons.mp hk' with rfl | hk'
    · exact List.mem_map.mpr ⟨(k', w), List.mem_filter.mpr ⟨get?_eq_some.mp hw, hqw⟩, rfl⟩
    · obtain ⟨row, hrow, rfl⟩ := List.mem_map.mp hk'
      obtain ⟨hrow, hq⟩ := List.mem_filter.mp hrow
      obtain ⟨v', hv', hq'⟩ := h row.1 row.2 (get?_eq_some.mpr hrow) hq
      exact List.mem_map.mpr ⟨(row.1, v'), List.mem_filter.mpr ⟨get?_eq_some.mp hv', hq'⟩, rfl⟩

end Table

/-! Sums over the rows of a table. -/
namespace Table
variable {K V : Type*}

def sumRows (f : K → V → ℕ) (rows : List (K × V)) : ℕ :=
  rows.foldr (fun row total => f row.1 row.2 + total) 0

/-- `SELECT SUM(...)` -/
def sum (t : Table K V) (f : K → V → ℕ) : ℕ := sumRows f t.rows

theorem sumRows_cons (f : K → V → ℕ) (row : K × V) (rows : List (K × V)) :
    sumRows f (row :: rows) = f row.1 row.2 + sumRows f rows := rfl

theorem sumRows_append (f : K → V → ℕ) (rows rows' : List (K × V)) :
    sumRows f (rows ++ rows') = sumRows f rows + sumRows f rows' := by
  induction rows with
  | nil => exact (Nat.zero_add _).symm
  | cons row rows ih => rw [List.cons_append, sumRows_cons, sumRows_cons, ih, Nat.add_assoc]

theorem sum_of_rows_append {t t' : Table K V} {k : K} {v : V}
    (hrows : t'.rows = t.rows ++ [(k, v)]) (f : K → V → ℕ) : t'.sum f = t.sum f + f k v := by
  unfold sum
  rw [hrows, sumRows_append]
  rfl

variable [DecidableEq K]

/-- A row is one of the summands. -/
theorem le_sum {t : Table K V} {k : K} {v : V} (h : t.get? k = some v) (f : K → V → ℕ) :
    f k v ≤ t.sum f := by
  obtain ⟨before, after, hrows⟩ := List.append_of_mem (get?_eq_some.mp h)
  unfold sum
  rw [hrows, sumRows_append, sumRows_cons]
  dsimp only
  omega

/-- An update of one row exchanges one summand. -/
theorem sum_update {t : Table K V} {k : K} {v : V} {p : K → V → Bool} (g : V → V)
    (hv : t.get? k = some v) (hp : ∀ row ∈ t.rows, p row.1 row.2 = true ↔ row.1 = k)
    (f : K → V → ℕ) : (t.update p g).sum f + f k v = t.sum f + f k (g v) := by
  have hmem := get?_eq_some.mp hv
  obtain ⟨before, after, hrows⟩ := List.append_of_mem hmem
  have hnodup := t.nodup
  rw [hrows, List.map_append, List.map_cons, List.nodup_append, List.nodup_cons] at hnodup
  obtain ⟨-, ⟨hafter, -⟩, hbefore⟩ := hnodup
  -- The rows on either side have other keys.
  have hother : ∀ rows : List (K × V), (∀ row ∈ rows, row ∈ t.rows ∧ row.1 ≠ k) →
      (rows.map fun row => if p row.1 row.2 then (row.1, g row.2) else row) = rows := by
    intro rows hsub
    conv_rhs => rw [← List.map_id rows]
    apply List.map_congr_left
    intro row hrow
    obtain ⟨hin, hne⟩ := hsub row hrow
    rw [if_neg fun hpr => hne ((hp row hin).mp hpr)]
    rfl
  have hb := hother before fun row hrow =>
    ⟨hrows ▸ List.mem_append_left _ hrow,
      hbefore row.1 (List.mem_map_of_mem hrow) k List.mem_cons_self⟩
  have ha := hother after fun row hrow =>
    ⟨hrows ▸ List.mem_append_right _ (List.mem_cons_of_mem _ hrow),
      fun heq => hafter (heq ▸ List.mem_map.mpr ⟨row, hrow, rfl⟩)⟩
  have hself : p k v = true := (hp (k, v) hmem).mpr rfl
  unfold sum update
  simp only [hrows, List.map_append, List.map_cons, hb, ha, hself, if_true, sumRows_append,
    sumRows_cons]
  omega

end Table
