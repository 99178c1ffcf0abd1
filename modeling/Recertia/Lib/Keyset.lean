import Mathlib.Data.List.Sort
import Mathlib.Data.List.Nodup

/-! Keyset paging: rows in descending order of a key, read in pages that each start below a
position, merged from several sources, and walked from page to page. -/
namespace Keyset
variable {K α β γ δ ε : Type*} [LinearOrder K] {key : α → K}

/-- The key of each row is above the keys of all rows after it. -/
def Descending (key : α → K) (rows : List α) : Prop := rows.Pairwise fun a b => key b < key a

theorem Descending.sublist {rows sub : List α} (h : Descending key rows)
    (hsub : sub.Sublist rows) : Descending key sub := List.Pairwise.sublist hsub h

theorem Descending.filter {rows : List α} (h : Descending key rows) (p : α → Bool) :
    Descending key (rows.filter p) := h.sublist List.filter_sublist

theorem Descending.nodup {rows : List α} (h : Descending key rows) : rows.Nodup :=
  List.Pairwise.imp (fun {a b} (hab : key b < key a) heq =>
    absurd (congrArg key heq) (ne_of_gt hab)) h

/-- A descending list is determined by its members. -/
theorem Descending.eq_of_mem_iff {xs ys : List α} (hx : Descending key xs)
    (hy : Descending key ys) (h : ∀ a, a ∈ xs ↔ a ∈ ys) : xs = ys := by
  have hperm : xs.Perm ys := (List.perm_ext_iff_of_nodup hx.nodup hy.nodup).mpr h
  have hboth : ∀ a b, a ∈ xs → b ∈ ys → key b < key a → key a < key b → a = b :=
    fun a b _ _ hab hba => absurd hba (lt_asymm hab)
  exact hperm.eq_of_pairwise hboth hx hy

/-- `ORDER BY key DESC` -/
def order (key : α → K) (rows : List α) : List α :=
  rows.insertionSort fun a b => key b ≤ key a

theorem mem_order {rows : List α} {a : α} : a ∈ order key rows ↔ a ∈ rows :=
  (List.perm_insertionSort _ rows).mem_iff

/-- Rows with distinct keys come out in descending order. -/
theorem descending_order {rows : List α} (h : (rows.map key).Nodup) :
    Descending key (order key rows) := by
  have : Std.Total fun a b : α => key b ≤ key a := ⟨fun a b => le_total (key b) (key a)⟩
  have : IsTrans α fun a b => key b ≤ key a := ⟨fun a b c hab hbc => le_trans hbc hab⟩
  have hsorted : (order key rows).Pairwise fun a b => key b ≤ key a :=
    List.pairwise_insertionSort _ rows
  have hkeys : ((order key rows).map key).Nodup :=
    (((List.perm_insertionSort _ rows).map key).nodup_iff).mpr h
  have hne : (order key rows).Pairwise fun a b => key a ≠ key b := List.pairwise_map.mp hkeys
  refine (hsorted.and hne).imp ?_
  rintro a b ⟨hle, hab⟩
  exact lt_of_le_of_ne hle (Ne.symm hab)

/-- The rows before the first that fails a test are those above all that fail it. -/
theorem Descending.takeWhile_eq_filter {rows : List α} (h : Descending key rows) (p : α → Bool) :
    rows.takeWhile p = rows.filter fun a => rows.all fun b => p b || decide (key b < key a) := by
  induction rows with
  | nil => rfl
  | cons a rows ih =>
    obtain ⟨habove, hrows⟩ := List.pairwise_cons.mp h
    cases hp : p a with
    | false =>
      -- The first row fails the test, and none is above it.
      have hnone : ∀ b ∈ a :: rows, ((a :: rows).all fun c => p c || decide (key c < key b)) =
          false := by
        intro b hb
        have hle : key b ≤ key a := by
          rcases List.mem_cons.mp hb with rfl | hb
          · exact le_rfl
          · exact le_of_lt (habove b hb)
        rw [List.all_cons, hp, Bool.false_or, decide_eq_false (not_lt_of_ge hle), Bool.false_and]
      rw [List.takeWhile_cons_of_neg (by rw [hp]; exact Bool.false_ne_true)]
      exact (List.filter_eq_nil_iff.mpr fun b hb => by rw [hnone b hb]; exact Bool.false_ne_true).symm
    | true =>
      have hfirst : ((a :: rows).all fun c => p c || decide (key c < key a)) = true := by
        rw [List.all_cons, hp, Bool.true_or, Bool.true_and, List.all_eq_true]
        intro c hc
        rw [decide_eq_true (habove c hc), Bool.or_true]
      rw [List.takeWhile_cons_of_pos hp, ih hrows, List.filter_cons, if_pos hfirst]
      simp only [List.all_cons, hp, Bool.true_or, Bool.true_and]

/-- `WHERE keep ORDER BY key DESC LIMIT limit` -/
def select (key : α → K) (keep : α → Bool) (limit : ℕ) (rows : List α) : List α :=
  (order key (rows.filter keep)).take limit

/-- The order does not depend on the order of the rows. -/
theorem order_perm {rows rows' : List α} (hperm : rows.Perm rows') (h : (rows.map key).Nodup) :
    order key rows = order key rows' := by
  have h' : (rows'.map key).Nodup := (hperm.map key).nodup_iff.mp h
  refine (descending_order h).eq_of_mem_iff (descending_order h') fun a => ?_
  rw [mem_order, mem_order, hperm.mem_iff]

/-- Pages of `chunk` rows one after another, each from the position after the last row of the
one before, until one is short. -/
def scan (page : β → List α) (after : α → β) (chunk : ℕ) : ℕ → β → List α
  | 0, _ => []
  | fuel + 1, start =>
    let rows := page start
    match rows.getLast? with
    | none => []
    | some last =>
      if rows.length < chunk then rows else rows ++ scan page after chunk fuel (after last)

/-- `heapq.merge(xs, ys, key=key, reverse=True)` -/
def merge (key : α → K) (xs ys : List α) : List α :=
  List.merge xs ys fun a b => key b ≤ key a

/-- Above the floor, where there is one. -/
def above (floor : Option K) (k : K) : Bool := floor.all fun f => f < k

/-- One page of a listing: its rows, and where the next one starts if there is one. -/
structure Page (α γ : Type*) where
  items : List α
  next : Option γ
  deriving DecidableEq, Repr

/-- Page after page, from a position until no next one is given. -/
def walk (page : Option γ → Except ε (Page δ γ)) : ℕ → Option γ → Option (List (Page δ γ))
  | 0, _ => none
  | fuel + 1, start =>
    match page start with
    | .error _ => none
    | .ok first =>
      match first.next with
      | none => some [first]
      | some next => (walk page fuel (some next)).map (first :: ·)

end Keyset
