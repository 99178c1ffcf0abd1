import Mathlib.Order.Lattice
import Mathlib.Data.List.Basic

/-! The first of the best elements of a list: how the fold of `max`, a filter and a stable
descending sort agree on it. -/
namespace FirstMax

variable {α β : Type*} [LinearOrder β] (key : α → β)

/-- `m` is the first element of `l` with the greatest key. -/
def IsFirst (l : List α) (m : α) : Prop :=
  ∃ before after, l = before ++ m :: after ∧ (∀ a ∈ before, key a < key m) ∧
    ∀ a ∈ after, key a ≤ key m

/-- `max(b :: bs, key=key)` -/
def foldMax (b : α) (bs : List α) : α :=
  bs.foldl (fun best c => if key best < key c then c else best) b

/-- The order of a descending sort. -/
def notBelow (a b : α) : Bool := decide (key b ≤ key a)

variable {key} {l : List α} {m m' : α}

theorem IsFirst.mem (h : IsFirst key l m) : m ∈ l := by
  obtain ⟨before, after, rfl, -⟩ := h
  exact List.mem_append_right _ List.mem_cons_self

theorem IsFirst.le (h : IsFirst key l m) : ∀ a ∈ l, key a ≤ key m := by
  obtain ⟨before, after, rfl, hbefore, hafter⟩ := h
  intro a ha
  rcases List.mem_append.mp ha with ha | ha
  · exact (hbefore a ha).le
  · rcases List.mem_cons.mp ha with rfl | ha
    · exact le_refl _
    · exact hafter a ha

/-- The elements with the greatest key, in order, start with the first one. -/
theorem IsFirst.filter_best (h : IsFirst key l m) :
    ∃ rest, l.filter (fun a => decide (key m ≤ key a)) = m :: rest := by
  obtain ⟨before, after, rfl, hbefore, -⟩ := h
  have hnone : before.filter (fun a => decide (key m ≤ key a)) = [] := by
    apply List.filter_eq_nil_iff.mpr
    intro a ha
    simp only [decide_eq_true_eq, not_le]
    exact hbefore a ha
  refine ⟨after.filter fun a => decide (key m ≤ key a), ?_⟩
  rw [List.filter_append, hnone, List.nil_append, List.filter_cons_of_pos]
  exact decide_eq_true (le_refl _)

theorem IsFirst.unique (h : IsFirst key l m) (h' : IsFirst key l m') : m = m' := by
  have hkey : key m = key m' := le_antisymm (h'.le m h.mem) (h.le m' h'.mem)
  obtain ⟨rest, hrest⟩ := h.filter_best
  obtain ⟨rest', hrest'⟩ := h'.filter_best
  rw [hkey, hrest'] at hrest
  exact (List.head_eq_of_cons_eq hrest).symm

/-- A filter that keeps the first of the best keeps it first. -/
theorem IsFirst.filter (h : IsFirst key l m) {p : α → Bool} (hp : p m = true) :
    IsFirst key (l.filter p) m := by
  obtain ⟨before, after, rfl, hbefore, hafter⟩ := h
  refine ⟨before.filter p, after.filter p, ?_, ?_, ?_⟩
  · rw [List.filter_append, List.filter_cons_of_pos hp]
  · intro a ha
    exact hbefore a (List.mem_of_mem_filter ha)
  · intro a ha
    exact hafter a (List.mem_of_mem_filter ha)

theorem foldMax_isFirst (b : α) (bs : List α) : IsFirst key (b :: bs) (foldMax key b bs) := by
  induction bs generalizing b with
  | nil => exact ⟨[], [], rfl, fun a ha => (by cases ha), fun a ha => (by cases ha)⟩
  | cons c bs ih =>
    change IsFirst key (b :: c :: bs) (foldMax key (if key b < key c then c else b) bs)
    by_cases hlt : key b < key c
    · rw [if_pos hlt]
      obtain ⟨before, after, hl, hbefore, hafter⟩ := ih c
      have hc : key c ≤ key (foldMax key c bs) :=
        IsFirst.le ⟨before, after, hl, hbefore, hafter⟩ c List.mem_cons_self
      refine ⟨b :: before, after, by rw [hl]; rfl, fun a ha => ?_, hafter⟩
      rcases List.mem_cons.mp ha with rfl | ha
      · exact hlt.trans_le hc
      · exact hbefore a ha
    · rw [if_neg hlt]
      obtain ⟨before, after, hl, hbefore, hafter⟩ := ih b
      have hb : key b ≤ key (foldMax key b bs) :=
        IsFirst.le ⟨before, after, hl, hbefore, hafter⟩ b List.mem_cons_self
      generalize foldMax key b bs = w at *
      cases before with
      | nil =>
        -- `b` itself stays the best, and `c` comes right after it.
        obtain ⟨hbest, hrest⟩ := List.cons.inj hl
        refine ⟨[], c :: after, ?_, fun a ha => (by cases ha), fun a ha => ?_⟩
        · rw [hbest, hrest]
          rfl
        · rcases List.mem_cons.mp ha with rfl | ha
          · exact (not_lt.mp hlt).trans hb
          · exact hafter a ha
      | cons b' before =>
        obtain ⟨rfl, hrest⟩ := List.cons.inj hl
        refine ⟨b :: c :: before, after, by rw [hrest]; rfl, fun a ha => ?_, hafter⟩
        have hlast := hbefore b List.mem_cons_self
        rcases List.mem_cons.mp ha with rfl | ha
        · exact hlast
        · rcases List.mem_cons.mp ha with rfl | ha
          · exact (not_lt.mp hlt).trans_lt hlast
          · exact hbefore a (List.mem_cons_of_mem b ha)

/-- A stable descending sort puts the first of the best at the head. -/
theorem head_mergeSort (h : IsFirst key l m) :
    ∃ rest, l.mergeSort (notBelow key) = m :: rest := by
  have htrans : ∀ a b c : α, notBelow key a b → notBelow key b c → notBelow key a c := by
    intro a b c hab hbc
    exact decide_eq_true ((of_decide_eq_true hbc).trans (of_decide_eq_true hab))
  have htotal : ∀ a b : α, notBelow key a b || notBelow key b a := by
    intro a b
    rw [Bool.or_eq_true]
    exact (le_total (key b) (key a)).imp decide_eq_true decide_eq_true
  let best := fun a => decide (key m ≤ key a)
  have hperm := List.mergeSort_perm l (notBelow key)
  -- The best elements keep their order, so they are the best elements of the sorted list.
  have hsub : (l.filter best).Sublist (l.mergeSort (notBelow key)) := by
    apply List.sublist_mergeSort htrans htotal _ List.filter_sublist
    apply List.pairwise_of_forall_mem_list
    intro a ha b hb
    have hba : key b ≤ key m := h.le b (List.mem_of_mem_filter hb)
    have hma : key m ≤ key a := of_decide_eq_true (List.mem_filter.mp ha).2
    exact decide_eq_true (hba.trans hma)
  have hfilter : l.filter best = (l.mergeSort (notBelow key)).filter best := by
    have hboth := hsub.filter best
    rw [List.filter_filter] at hboth
    simp only [Bool.and_self] at hboth
    exact hboth.eq_of_length (hperm.filter best).length_eq.symm
  obtain ⟨rest, hrest⟩ := h.filter_best
  change l.filter best = m :: rest at hrest
  rw [hfilter] at hrest
  cases hsorted : l.mergeSort (notBelow key) with
  | nil =>
    rw [hsorted] at hrest
    cases hrest
  | cons x xs =>
    have hm : m ∈ x :: xs := hsorted ▸ hperm.mem_iff.mpr h.mem
    have hpair := List.pairwise_mergeSort htrans htotal l
    rw [hsorted, List.pairwise_cons] at hpair
    have hx : best x = true := by
      rcases List.mem_cons.mp hm with rfl | hm
      · exact decide_eq_true (le_refl _)
      · exact hpair.1 m hm
    rw [hsorted, List.filter_cons_of_pos hx] at hrest
    exact ⟨xs, by rw [List.head_eq_of_cons_eq hrest]⟩

end FirstMax
