import Recertia.Lib.Table
import Mathlib.Tactic.Linarith

/-! A table in the order of insertion with a limit for each owner and one for all: a new row makes
room among the rows of its own owner first, and only then among the oldest of all. What one owner
adds is bounded, so a row survives the additions of a few others, however many they are. -/
namespace OwnedPool

variable {K V O : Type*} [DecidableEq K] [DecidableEq O]

/-- An owner at its limit does not fill the pool. -/
structure Limits where
  perOwner : ℕ
  total : ℕ
  pos : 0 < perOwner
  lt : perOwner < total

variable (owner : V → O)

def keysOf (o : O) (t : Table K V) : List K :=
  (t.rows.filter fun row => owner row.2 = o).map Prod.fst

/-- The keys are those of one owner, the oldest first. -/
def evictOwn (perOwner : ℕ) : List K → Table K V → Table K V
  | [], t => t
  | k :: ks, t =>
    if perOwner ≤ (k :: ks).length then evictOwn perOwner ks (t.delete fun k' _ => k' = k) else t

/-- The keys are all there are, the oldest first. -/
def evictOldest (total : ℕ) : List K → Table K V → Table K V
  | [], t => t
  | k :: ks, t =>
    if total ≤ t.rows.length then evictOldest total ks (t.delete fun k' _ => k' = k) else t

def makeRoom (limits : Limits) (o : O) (t : Table K V) : Table K V :=
  let t := evictOwn limits.perOwner (keysOf owner o t) t
  evictOldest limits.total t.keys t

def enter (limits : Limits) (k : K) (v : V) (t : Table K V) : Table K V :=
  (makeRoom owner limits (owner v) t).upsert k v fun _ => v

/-! ### Rows that stay -/

/-- Rows are taken out, and the others stay in their order. -/
def Thins (t t' : Table K V) : Prop := ∃ q : K × V → Bool, t'.rows = t.rows.filter q

omit [DecidableEq K] in
theorem Thins.refl (t : Table K V) : Thins t t :=
  ⟨fun _ => true, List.filter_eq_self.mpr (fun _ _ => rfl) |>.symm⟩

omit [DecidableEq K] in
theorem Thins.trans {t t' t'' : Table K V} (h : Thins t t') (h' : Thins t' t'') : Thins t t'' := by
  obtain ⟨q, hq⟩ := h
  obtain ⟨q', hq'⟩ := h'
  refine ⟨fun row => q' row && q row, ?_⟩
  rw [hq', hq, List.filter_filter]

omit [DecidableEq K] in
theorem thins_delete (t : Table K V) (p : K → V → Bool) : Thins t (t.delete p) :=
  ⟨fun row => !p row.1 row.2, rfl⟩

omit [DecidableEq K] in
theorem Thins.sublist {t t' : Table K V} (h : Thins t t') : t'.rows.Sublist t.rows := by
  obtain ⟨q, hq⟩ := h
  rw [hq]
  exact List.filter_sublist

omit [DecidableEq K] in
/-- What was older than a row that stays, and what was newer. -/
theorem Thins.split {t t' : Table K V} (h : Thins t t') {before after : List (K × V)} {x : K × V}
    (hrows : t.rows = before ++ x :: after) (hx : x ∈ t'.rows) :
    ∃ before' after', t'.rows = before' ++ x :: after' ∧ before'.Sublist before ∧
      after'.Sublist after := by
  obtain ⟨q, hq⟩ := h
  have hkept : q x = true := by
    rw [hq] at hx
    exact (List.mem_filter.mp hx).2
  refine ⟨before.filter q, after.filter q, ?_, List.filter_sublist, List.filter_sublist⟩
  rw [hq, hrows, List.filter_append, List.filter_cons_of_pos hkept]

theorem keys_delete_head {t : Table K V} {x : K × V} {rest : List (K × V)}
    (hrows : t.rows = x :: rest) : (t.delete fun k _ => k = x.1).rows = rest := by
  have hnodup := t.nodup
  rw [hrows, List.map_cons, List.nodup_cons] at hnodup
  show t.rows.filter _ = rest
  rw [hrows, List.filter_cons_of_neg (by simp), List.filter_eq_self]
  intro row hrow
  have hne : row.1 ≠ x.1 := by
    intro heq
    exact hnodup.1 (heq ▸ List.mem_map_of_mem hrow)
  simpa using hne

/-! ### Making room among all rows -/

theorem thins_evictOldest (total : ℕ) (ks : List K) (t : Table K V) :
    Thins t (evictOldest total ks t) := by
  induction ks generalizing t with
  | nil => exact .refl t
  | cons k ks ih =>
    unfold evictOldest
    split
    · exact (thins_delete t _).trans (ih _)
    · exact .refl t

theorem length_evictOldest {total : ℕ} (htotal : 0 < total) (t : Table K V) :
    (evictOldest total t.keys t).rows.length < total := by
  generalize hkeys : t.keys = ks
  induction ks generalizing t with
  | nil =>
    have hrows : t.rows = [] := List.map_eq_nil_iff.mp hkeys
    rw [evictOldest, hrows]
    exact htotal
  | cons k ks ih =>
    unfold evictOldest
    split
    · apply ih
      obtain ⟨x, rest, hrows, hx, hrest⟩ := List.map_eq_cons_iff.mp hkeys
      show (t.delete _).rows.map Prod.fst = ks
      rw [← hx, keys_delete_head hrows, hrest]
    · omega

/-- A row stays while those behind it and it itself leave room. -/
theorem mem_evictOldest {total : ℕ} {t : Table K V} {before after : List (K × V)} {x : K × V}
    (hrows : t.rows = before ++ x :: after) (hroom : after.length + 1 < total) :
    x ∈ (evictOldest total t.keys t).rows := by
  generalize hkeys : t.keys = ks
  induction ks generalizing t before with
  | nil =>
    rw [Table.keys, hrows] at hkeys
    simp at hkeys
  | cons k ks ih =>
    unfold evictOldest
    split
    · rename_i hfull
      cases before with
      | nil =>
        rw [hrows, List.nil_append, List.length_cons] at hfull
        omega
      | cons y before =>
        have hkey : y.1 = k := by
          rw [Table.keys, hrows] at hkeys
          exact (List.cons.inj hkeys).1
        have hnext : (t.delete fun k' _ => k' = k).rows = before ++ x :: after := by
          rw [← hkey]
          exact keys_delete_head hrows
        apply ih hnext
        rw [Table.keys, hnext]
        rw [Table.keys, hrows] at hkeys
        exact (List.cons.inj hkeys).2
    · rw [hrows]
      exact List.mem_append_right _ List.mem_cons_self

/-! ### Making room among an owner's rows -/

omit [DecidableEq O] in
theorem thins_evictOwn (perOwner : ℕ) (ks : List K) (t : Table K V) :
    Thins t (evictOwn perOwner ks t) := by
  induction ks generalizing t with
  | nil => exact .refl t
  | cons k ks ih =>
    unfold evictOwn
    split
    · exact (thins_delete t _).trans (ih _)
    · exact .refl t

theorem keysOf_delete {t : Table K V} {o : O} {k : K} {ks : List K}
    (hkeys : keysOf owner o t = k :: ks) : keysOf owner o (t.delete fun k' _ => k' = k) = ks := by
  have hnodup : (keysOf owner o t).Nodup :=
    t.nodup.sublist (List.Sublist.map _ List.filter_sublist)
  have hdelete : keysOf owner o (t.delete fun k' _ => k' = k) =
      (keysOf owner o t).filter fun k' => k' ≠ k := by
    show ((t.rows.filter _).filter _).map Prod.fst = ((t.rows.filter _).map Prod.fst).filter _
    rw [List.filter_map, List.filter_filter, List.filter_filter]
    congr 1
    apply List.filter_congr
    intro row _
    simp [Bool.and_comm]
  rw [hdelete, hkeys, List.filter_cons_of_neg (by simp), List.filter_eq_self]
  rw [hkeys, List.nodup_cons] at hnodup
  intro k' hk'
  simpa using fun heq : k' = k => hnodup.1 (heq ▸ hk')

theorem length_evictOwn {perOwner : ℕ} (hpos : 0 < perOwner) (o : O) (t : Table K V) :
    (keysOf owner o (evictOwn perOwner (keysOf owner o t) t)).length < perOwner := by
  generalize hkeys : keysOf owner o t = ks
  induction ks generalizing t with
  | nil =>
    rw [evictOwn, hkeys]
    exact hpos
  | cons k ks ih =>
    unfold evictOwn
    split
    · exact ih _ (keysOf_delete owner hkeys)
    · rename_i hroom
      rw [hkeys]
      omega

/-- An owner's row stays while its newer ones and it itself leave room. -/
theorem mem_evictOwn {perOwner : ℕ} {o : O} {t : Table K V} {older newer : List K} {k : K} {v : V}
    (hrow : (k, v) ∈ t.rows) (hkeys : keysOf owner o t = older ++ k :: newer)
    (hroom : newer.length + 1 < perOwner) :
    (k, v) ∈ (evictOwn perOwner (keysOf owner o t) t).rows := by
  induction older generalizing t with
  | nil =>
    rw [hkeys, List.nil_append, evictOwn, if_neg]
    · exact hrow
    · rw [List.length_cons]
      omega
  | cons k' older ih =>
    have hnodup : (keysOf owner o t).Nodup :=
      t.nodup.sublist (List.Sublist.map _ List.filter_sublist)
    rw [hkeys, List.cons_append, List.nodup_cons] at hnodup
    have hnext : keysOf owner o (t.delete fun k _ => k = k') = older ++ k :: newer :=
      keysOf_delete owner hkeys
    rw [hkeys, List.cons_append, evictOwn]
    split
    · rw [← hnext]
      apply ih _ hnext
      apply List.mem_filter.mpr
      have hne : k ≠ k' := by
        intro heq
        exact hnodup.1 (heq ▸ List.mem_append_right _ List.mem_cons_self)
      exact ⟨hrow, by simpa using hne⟩
    · exact hrow

/-- The rows of the other owners stay. -/
theorem mem_evictOwn_other {perOwner : ℕ} {o : O} {t : Table K V} {row : K × V}
    (hrow : row ∈ t.rows) (hother : owner row.2 ≠ o) :
    row ∈ (evictOwn perOwner (keysOf owner o t) t).rows := by
  have hkeys : ∀ k ∈ keysOf owner o t, k ≠ row.1 := by
    intro k hk heq
    obtain ⟨row', hmem, hfst⟩ := List.mem_map.mp hk
    obtain ⟨hrow', howner⟩ := List.mem_filter.mp hmem
    have hval : row'.2 = row.2 := t.row_unique (hfst.trans heq ▸ hrow') hrow
    rw [hval, decide_eq_true_eq] at howner
    exact hother howner
  generalize keysOf owner o t = ks at hkeys
  induction ks generalizing t with
  | nil => exact hrow
  | cons k ks ih =>
    unfold evictOwn
    split
    · apply ih _ fun k' hk' => hkeys k' (List.mem_cons_of_mem _ hk')
      apply List.mem_filter.mpr
      have hne : row.1 ≠ k := fun heq => hkeys k List.mem_cons_self heq.symm
      exact ⟨hrow, by simpa using hne⟩
    · exact hrow

/-! ### The limits -/

/-- No owner has more rows than its limit, and the pool no more than its own. -/
structure Capped (limits : Limits) (t : Table K V) : Prop where
  own : ∀ o, (keysOf owner o t).length ≤ limits.perOwner
  total : t.rows.length ≤ limits.total

variable {owner} {limits : Limits}

omit [DecidableEq K] in
theorem capped_empty : Capped owner limits (Table.empty : Table K V) :=
  ⟨fun _ => Nat.zero_le _, Nat.zero_le _⟩

omit [DecidableEq K] in
theorem keysOf_thins {t t' : Table K V} (h : Thins t t') (o : O) :
    (keysOf owner o t').length ≤ (keysOf owner o t).length := by
  unfold keysOf
  rw [List.length_map, List.length_map]
  exact (h.sublist.filter _).length_le

omit [DecidableEq K] in
theorem Capped.thins {t t' : Table K V} (h : Capped owner limits t) (hthins : Thins t t') :
    Capped owner limits t' :=
  ⟨fun o => (keysOf_thins hthins o).trans (h.own o), hthins.sublist.length_le.trans h.total⟩

theorem thins_makeRoom (owner : V → O) (limits : Limits) (o : O) (t : Table K V) :
    Thins t (makeRoom owner limits o t) :=
  (thins_evictOwn _ _ t).trans (thins_evictOldest _ _ _)

/-- There is room for a row of the owner. -/
theorem room (owner : V → O) (limits : Limits) (o : O) (t : Table K V) :
    (keysOf owner o (makeRoom owner limits o t)).length < limits.perOwner ∧
      (makeRoom owner limits o t).rows.length < limits.total := by
  constructor
  · exact Nat.lt_of_le_of_lt (keysOf_thins (thins_evictOldest _ _ _) o)
      (length_evictOwn owner limits.pos o t)
  · exact length_evictOldest (Nat.lt_trans limits.pos limits.lt) _

theorem map_replace_of_not_mem {rows : List (K × V)} {k : K} {v : V} (h : k ∉ rows.map Prod.fst) :
    (rows.map fun row => if row.1 = k then (row.1, v) else row) = rows := by
  conv_rhs => rw [← List.map_id rows]
  apply List.map_congr_left
  intro row hrow
  apply if_neg
  intro heq
  exact h (heq ▸ List.mem_map_of_mem hrow)

/-- A row that is set counts once more at most. -/
theorem length_filter_replace {rows : List (K × V)} (hnodup : (rows.map Prod.fst).Nodup) (k : K)
    (v : V) (P : K × V → Bool) :
    ((rows.map fun row => if row.1 = k then (row.1, v) else row).filter P).length ≤
      (rows.filter P).length + if P (k, v) then 1 else 0 := by
  induction rows with
  | nil => exact Nat.zero_le _
  | cons row rows ih =>
    rw [List.map_cons, List.nodup_cons] at hnodup
    rw [List.map_cons, List.filter_cons, List.filter_cons]
    by_cases hk : row.1 = k
    · rw [if_pos hk, map_replace_of_not_mem (hk ▸ hnodup.1), hk]
      split <;> split <;> simp
    · rw [if_neg hk]
      have hrest := ih hnodup.2
      split
      · rw [List.length_cons, List.length_cons]
        omega
      · exact hrest

theorem length_filter_upsert (t : Table K V) (k : K) (v : V) (P : K × V → Bool) :
    ((t.upsert k v fun _ => v).rows.filter P).length ≤
      (t.rows.filter P).length + if P (k, v) then 1 else 0 := by
  rw [Table.rows_upsert]
  split
  · exact length_filter_replace t.nodup k v P
  · rw [List.filter_append, List.length_append]
    cases hP : P (k, v) <;> simp [hP]

theorem mem_enter {t : Table K V} {k : K} {v : V} {row : K × V}
    (h : row ∈ (enter owner limits k v t).rows) :
    row = (k, v) ∨ row ∈ (makeRoom owner limits (owner v) t).rows := by
  unfold enter at h
  rw [Table.rows_upsert] at h
  split at h
  · obtain ⟨row', hmem, rfl⟩ := List.mem_map.mp h
    split
    · rename_i hk
      exact .inl (by rw [hk])
    · exact .inr hmem
  · rcases List.mem_append.mp h with hold | hnew
    · exact .inr hold
    · exact .inl (List.mem_singleton.mp hnew)

omit [DecidableEq K] in
theorem count_thins {t t' : Table K V} (h : Thins t t') (p : K → V → Bool) :
    t'.count p ≤ t.count p :=
  h.sublist.countP_le

theorem count_enter (owner : V → O) (limits : Limits) (t : Table K V) (k : K) (v : V)
    (p : K → V → Bool) :
    (enter owner limits k v t).count p ≤ t.count p + if p k v then 1 else 0 := by
  have hadd := length_filter_upsert (makeRoom owner limits (owner v) t) k v fun row => p row.1 row.2
  have hthin := count_thins (thins_makeRoom owner limits (owner v) t) p
  rw [← List.countP_eq_length_filter, ← List.countP_eq_length_filter] at hadd
  exact hadd.trans (Nat.add_le_add_right hthin _)

theorem Capped.enter {t : Table K V} (h : Capped owner limits t) (k : K) (v : V) :
    Capped owner limits (enter owner limits k v t) := by
  have hthin : Capped owner limits (makeRoom owner limits (owner v) t) :=
    h.thins (thins_makeRoom owner limits _ t)
  obtain ⟨hown, htotal⟩ := room owner limits (owner v) t
  unfold OwnedPool.enter
  generalize makeRoom owner limits (owner v) t = room at hthin hown htotal
  constructor
  · intro o
    have hcount := length_filter_upsert room k v fun row => decide (owner row.2 = o)
    have hbefore := hthin.own o
    unfold keysOf at hown hbefore ⊢
    rw [List.length_map] at hown hbefore ⊢
    by_cases ho : owner v = o
    · rw [if_pos (by simpa using ho)] at hcount
      rw [← ho] at hcount hbefore ⊢
      omega
    · rw [if_neg (by simpa using ho)] at hcount
      omega
  · have hcount := length_filter_upsert room k v fun _ => true
    rw [List.filter_true, List.filter_true, if_pos rfl] at hcount
    omega

/-! ### Whole histories -/

inductive Op (K V : Type*)
  | enter (k : K) (v : V)
  | remove (p : K → V → Bool)

variable (owner limits)

def apply (t : Table K V) : Op K V → Table K V
  | .enter k v => enter owner limits k v t
  | .remove p => t.delete p

def applyAll (t : Table K V) (ops : List (Op K V)) : Table K V := ops.foldl (apply owner limits) t

def Op.addsFor (o : O) : Op K V → Bool
  | .enter _ v => owner v = o
  | .remove _ => false

variable {owner limits}

theorem Capped.apply {t : Table K V} (h : Capped owner limits t) (op : Op K V) :
    Capped owner limits (apply owner limits t op) := by
  cases op with
  | enter k v => exact h.enter k v
  | remove p => exact h.thins (thins_delete t p)

theorem Capped.applyAll {t : Table K V} (h : Capped owner limits t) (ops : List (Op K V)) :
    Capped owner limits (applyAll owner limits t ops) := by
  induction ops generalizing t with
  | nil => exact h
  | cons op ops ih => exact ih (h.apply op)

/-- Rows of a few owners under their limits are few. -/
theorem length_le_of_owners {β : Type*} {f : β → O} {bound : ℕ} {owners : List O} {rows : List β}
    (hbound : ∀ o, (rows.filter fun row => f row = o).length ≤ bound)
    (howners : ∀ row ∈ rows, f row ∈ owners) : rows.length ≤ bound * owners.length := by
  induction owners generalizing rows with
  | nil =>
    cases rows with
    | nil => exact Nat.zero_le _
    | cons row rows => exact absurd (howners row List.mem_cons_self) List.not_mem_nil
  | cons o owners ih =>
    have hrest : (rows.filter fun row => ¬ f row = o).length ≤ bound * owners.length := by
      apply ih
      · intro o'
        apply le_trans _ (hbound o')
        rw [List.filter_filter]
        have hcomm : (rows.filter fun row => decide (f row = o') && decide ¬ f row = o) =
            (rows.filter fun row => decide (f row = o')).filter fun row => decide ¬ f row = o := by
          rw [List.filter_filter]
          apply List.filter_congr
          intro row _
          rw [Bool.and_comm]
        rw [hcomm]
        exact List.length_filter_le _ _
      · intro row hrow
        obtain ⟨hmem, hne⟩ := List.mem_filter.mp hrow
        rcases List.mem_cons.mp (howners row hmem) with heq | hin
        · exact absurd heq (of_decide_eq_true hne)
        · exact hin
    have hsplit : rows.length = (rows.filter fun row => decide (f row = o)).length +
        (rows.filter fun row => decide ¬ f row = o).length := by
      rw [← List.countP_eq_length_filter, ← List.countP_eq_length_filter,
        List.length_eq_countP_add_countP fun row => decide (f row = o)]
      congr 2
      funext row
      simp
    have hfirst := hbound o
    rw [List.length_cons, Nat.mul_succ]
    omega

variable (owner limits)

/-- What a row has behind it: rows of a few owners, of which its own has at most `own`. -/
structure Followed (t : Table K V) (x : K × V) (others : List O) (own : ℕ) : Prop where
  split : ∃ before after, t.rows = before ++ x :: after ∧
    (∀ row ∈ after, owner row.2 = owner x.2 ∨ owner row.2 ∈ others) ∧
    (after.filter fun row => owner row.2 = owner x.2).length ≤ own

variable {owner limits}

omit [DecidableEq K] in
theorem Followed.mem {t : Table K V} {x : K × V} {others : List O} {own : ℕ}
    (h : Followed owner t x others own) : x ∈ t.rows := by
  obtain ⟨before, after, hrows, -⟩ := h.split
  rw [hrows]
  exact List.mem_append_right _ List.mem_cons_self

omit [DecidableEq K] in
theorem Followed.thins {t t' : Table K V} {x : K × V} {others : List O} {own : ℕ}
    (h : Followed owner t x others own) (hthins : Thins t t') (hx : x ∈ t'.rows) :
    Followed owner t' x others own := by
  obtain ⟨before, after, hrows, howners, hown⟩ := h.split
  obtain ⟨before', after', hrows', -, hafter⟩ := hthins.split hrows hx
  exact ⟨before', after', hrows', fun row hrow => howners row (hafter.subset hrow),
    (hafter.filter _).length_le.trans hown⟩

/-- A row that is followed by few stays when room is made. -/
theorem Followed.makeRoom {t : Table K V} (hcap : Capped owner limits t) {x : K × V}
    {others : List O} {own : ℕ} (h : Followed owner t x others own)
    (hfew : limits.perOwner * (others.length + 1) < limits.total) (o : O)
    (hown : o = owner x.2 → own + 1 < limits.perOwner) :
    Followed owner (makeRoom owner limits o t) x others own := by
  -- Room among the owner's rows first.
  have hkept : x ∈ (evictOwn limits.perOwner (keysOf owner o t) t).rows := by
    by_cases ho : owner x.2 = o
    · obtain ⟨before, after, hrows, -, hcount⟩ := h.split
      have hkeys : keysOf owner o t =
          (before.filter fun row => owner row.2 = o).map Prod.fst ++
            x.1 :: (after.filter fun row => owner row.2 = o).map Prod.fst := by
        unfold keysOf
        rw [hrows, List.filter_append, List.filter_cons_of_pos (by simpa using ho),
          List.map_append, List.map_cons]
      apply mem_evictOwn owner h.mem hkeys
      rw [List.length_map, ← ho]
      have hroom := hown ho.symm
      omega
    · exact mem_evictOwn_other owner h.mem ho
  have hown' := h.thins (thins_evictOwn _ _ t) hkept
  have hcap' := hcap.thins (thins_evictOwn limits.perOwner (keysOf owner o t) t)
  -- Then among all: the rows from `x` on are of few owners.
  unfold OwnedPool.makeRoom
  dsimp only
  generalize evictOwn limits.perOwner (keysOf owner o t) t = t' at hown' hcap'
  obtain ⟨before, after, hrows, howners, -⟩ := hown'.split
  apply hown'.thins (thins_evictOldest _ _ _)
  apply mem_evictOldest hrows
  have hbound : ∀ o, ((x :: after).filter fun row => owner row.2 = o).length ≤ limits.perOwner := by
    intro o
    apply le_trans _ (hcap'.own o)
    unfold keysOf
    rw [List.length_map, hrows, List.filter_append, List.length_append]
    exact Nat.le_add_left _ _
  have hin : ∀ row ∈ x :: after, owner row.2 ∈ owner x.2 :: others := by
    intro row hrow
    rcases List.mem_cons.mp hrow with rfl | hrow
    · exact List.mem_cons_self
    · rcases howners row hrow with heq | hother
      · rw [heq]
        exact List.mem_cons_self
      · exact List.mem_cons_of_mem _ hother
  have hlength := length_le_of_owners hbound hin
  rw [List.length_cons, List.length_cons] at hlength
  omega

/-- A row that is set behind it, or in the place of another. -/
theorem Followed.upsert {t : Table K V} {x : K × V} {others : List O} {own : ℕ}
    (h : Followed owner t x others own) {k : K} (hk : k ≠ x.1) {v : V}
    (hv : owner v = owner x.2 ∨ owner v ∈ others) :
    Followed owner (t.upsert k v fun _ => v) x others
      (own + if owner v = owner x.2 then 1 else 0) := by
  obtain ⟨before, after, hrows, howners, hown⟩ := h.split
  constructor
  rw [Table.rows_upsert]
  split
  · have hnodup : (after.map Prod.fst).Nodup := by
      have hall := t.nodup
      rw [hrows, List.map_append, List.nodup_append] at hall
      exact (List.nodup_cons.mp hall.2.1).2
    have hsplit : (t.rows.map fun row => if row.1 = k then (row.1, v) else row) =
        before.map (fun row => if row.1 = k then (row.1, v) else row) ++
          x :: after.map fun row => if row.1 = k then (row.1, v) else row := by
      rw [hrows, List.map_append, List.map_cons, if_neg hk.symm]
    refine ⟨_, _, hsplit, fun row hrow => ?_, ?_⟩
    · obtain ⟨row', hmem, rfl⟩ := List.mem_map.mp hrow
      split
      · exact hv
      · exact howners row' hmem
    · apply (length_filter_replace hnodup k v fun row => decide (owner row.2 = owner x.2)).trans
      simp only [decide_eq_true_eq]
      omega
  · refine ⟨before, after ++ [(k, v)], by rw [hrows, List.append_assoc, List.cons_append],
      fun row hrow => ?_, ?_⟩
    · rcases List.mem_append.mp hrow with hold | hnew
      · exact howners row hold
      · rw [List.mem_singleton.mp hnew]
        exact hv
    · rw [List.filter_append, List.length_append]
      by_cases heq : owner v = owner x.2
      · rw [if_pos heq, List.filter_cons_of_pos (by simpa using heq)]
        simpa using hown
      · rw [if_neg heq, List.filter_cons_of_neg (by simpa using heq)]
        simpa using hown

/-- A new row has nothing behind it. -/
theorem followed_enter {t : Table K V} {k : K} (h : t.get? k = none) (v : V) (others : List O) :
    Followed owner (enter owner limits k v t) (k, v) others 0 := by
  have hfresh : k ∉ (makeRoom owner limits (owner v) t).keys := by
    intro hmem
    apply Table.get?_eq_none.mp h
    exact ((thins_makeRoom owner limits (owner v) t).sublist.map Prod.fst).subset hmem
  refine ⟨(makeRoom owner limits (owner v) t).rows, [], ?_, ?_, Nat.le_refl 0⟩
  · unfold enter
    rw [Table.rows_upsert, if_neg hfresh]
  · intro row hrow
    cases hrow

/-- A row is there behind any history in which nobody removes it or sets its key again, its own
owner adds fewer rows than it may have, and a few others add as many as they like. -/
theorem survives {t : Table K V} (hcap : Capped owner limits t) {k : K} {v : V} {others : List O}
    (hfew : limits.perOwner * (others.length + 1) < limits.total) {ops : List (Op K V)}
    (henters : ∀ k' v', .enter k' v' ∈ ops → k' ≠ k ∧ (owner v' = owner v ∨ owner v' ∈ others))
    (hremoves : ∀ p, .remove p ∈ ops → p k v = false) {own : ℕ}
    (hfollowed : Followed owner t (k, v) others own)
    (hown : own + (ops.filter fun op => op.addsFor owner (owner v)).length < limits.perOwner) :
    (applyAll owner limits t ops).get? k = some v := by
  induction ops generalizing t own with
  | nil => exact Table.get?_eq_some.mpr hfollowed.mem
  | cons op ops ih =>
    have henters' : ∀ k' v', .enter k' v' ∈ ops →
        k' ≠ k ∧ (owner v' = owner v ∨ owner v' ∈ others) :=
      fun k' v' hmem => henters k' v' (List.mem_cons_of_mem _ hmem)
    have hremoves' : ∀ p, .remove p ∈ ops → p k v = false :=
      fun p hmem => hremoves p (List.mem_cons_of_mem _ hmem)
    cases op with
    | enter k' v' =>
      obtain ⟨hk, hv⟩ := henters k' v' List.mem_cons_self
      have hadd : ((Op.enter k' v' :: ops).filter fun op => op.addsFor owner (owner v)).length =
          (if owner v' = owner v then 1 else 0) +
            (ops.filter fun op => op.addsFor owner (owner v)).length := by
        by_cases heq : owner v' = owner v
        · rw [if_pos heq, List.filter_cons_of_pos (by simpa [Op.addsFor] using heq),
            List.length_cons, Nat.add_comm]
        · rw [if_neg heq, List.filter_cons_of_neg (by simpa [Op.addsFor] using heq), Nat.zero_add]
      rw [hadd] at hown
      have hroom : owner v' = owner v → own + 1 < limits.perOwner := by
        intro heq
        rw [if_pos heq] at hown
        omega
      have hnext : Followed owner (enter owner limits k' v' t) (k, v) others
          (own + if owner v' = owner v then 1 else 0) :=
        (hfollowed.makeRoom hcap hfew (owner v') hroom).upsert hk hv
      exact ih (hcap.enter k' v') henters' hremoves' hnext (by omega)
    | remove p =>
      have hp := hremoves p List.mem_cons_self
      have hkept : (k, v) ∈ (t.delete p).rows :=
        List.mem_filter.mpr ⟨hfollowed.mem, by rw [hp]; rfl⟩
      exact ih (hcap.thins (thins_delete t p)) henters' hremoves'
        (hfollowed.thins (thins_delete t p) hkept) hown

end OwnedPool
