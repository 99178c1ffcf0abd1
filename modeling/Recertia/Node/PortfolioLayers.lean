import Mathlib.Data.Prod.Lex
import Recertia.Lib.FirstMax
import Recertia.Node.Join

/-! The layered reduction of a portfolio: the cut to the top half of the succeeded branches keeps
the winner of the flat selection. -/
namespace Recertia.Graph

/-- The place of a float that is not NaN. -/
def Cost.key : Cost → WithBot (WithTop ℚ)
  | .number q => ((q : WithTop ℚ) : WithBot (WithTop ℚ))
  | .posInf => ((⊤ : WithTop ℚ) : WithBot (WithTop ℚ))
  | .negInf | .nan => ⊥

theorem Cost.lt_eq {a b : Cost} (ha : a ≠ .nan) (hb : b ≠ .nan) :
    a.lt b = decide (a.key < b.key) := by
  cases a <;> cases b <;> simp_all [Cost.lt, Cost.key, WithTop.coe_lt_top, -WithBot.coe_top]

/-- `completed` in `_select_portfolio_winner`, with the branches that succeeded. -/
def BranchStatus.completed : BranchStatus → Bool
  | .succeeded => true
  | .failed => true
  | .timedOut => true
  | _ => false

def deselect (keep : List String) (b : BranchState) : BranchState :=
  if keep.contains b.branchId then b else { b with selected := false }

section Reduction
variable (score : BranchState → PortfolioScore)

/-- The branches after the layered cut: those that do not survive are deselected. -/
def layeredCut (branches : List BranchState) : List BranchState :=
  match survivors score branches with
  | none => branches
  | some keep => branches.map (deselect keep)

/-- The score of a branch in the order of the tuples. -/
def scoreKey (b : BranchState) : ℕ ×ₗ (ℚ ×ₗ WithBot (WithTop ℚ)) :=
  toLex ((score b).1, toLex ((score b).2.1, (score b).2.2.key))

/-- The scores are numbers. -/
def Comparable (branches : List BranchState) : Prop := ∀ b ∈ branches, (score b).2.2 ≠ .nan

variable {score}

theorem Comparable.sublist {branches branches' : List BranchState}
    (h : Comparable score branches) (hsub : branches'.Sublist branches) :
    Comparable score branches' := fun b hb => h b (hsub.subset hb)

theorem eligible_sublist (ids : Option (List String)) (branches : List BranchState) :
    (eligible ids branches).Sublist branches := by
  cases ids with
  | none => exact List.Sublist.refl _
  | some ids => exact List.filter_sublist

theorem scoreLt_eq {a b : BranchState} (ha : (score a).2.2 ≠ .nan) (hb : (score b).2.2 ≠ .nan) :
    scoreLt (score a) (score b) = decide (scoreKey score a < scoreKey score b) := by
  unfold scoreLt scoreKey
  rw [Bool.eq_iff_iff, Cost.lt_eq ha hb]
  simp only [Prod.Lex.toLex_lt_toLex, Bool.or_eq_true, Bool.and_eq_true, decide_eq_true_eq,
    beq_iff_eq]

theorem bestBranch_cons {b : BranchState} {bs : List BranchState}
    (h : Comparable score (b :: bs)) :
    bestBranch score (b :: bs) = some (FirstMax.foldMax (scoreKey score) b bs) := by
  unfold bestBranch FirstMax.foldMax
  apply congrArg some
  induction bs generalizing b with
  | nil => rfl
  | cons c bs ih =>
    have hb := h b List.mem_cons_self
    have hc := h c (List.mem_cons_of_mem b List.mem_cons_self)
    rw [List.foldl_cons, List.foldl_cons, scoreLt_eq hb hc]
    simp only [decide_eq_true_eq]
    apply ih
    split
    · exact h.sublist (List.sublist_cons_self b _)
    · exact h.sublist ((List.sublist_cons_self c bs).cons_cons b)

/-- The selection takes the first of the best. -/
theorem bestBranch_eq_some {branches : List BranchState} {m : BranchState}
    (hscores : Comparable score branches) (h : FirstMax.IsFirst (scoreKey score) branches m) :
    bestBranch score branches = some m := by
  cases branches with
  | nil => exact absurd h.mem List.not_mem_nil
  | cons b bs =>
    rw [bestBranch_cons hscores]
    exact congrArg some ((FirstMax.foldMax_isFirst b bs).unique h)

theorem bestBranch_eq_none {branches : List BranchState} :
    bestBranch score branches = none ↔ branches = [] := by
  cases branches with
  | nil => exact ⟨fun _ => rfl, fun _ => rfl⟩
  | cons b bs => exact ⟨fun h => (by cases h), fun h => (by cases h)⟩

theorem ranked_eq {branches : List BranchState} (h : Comparable score branches) :
    branches.mergeSort (fun a b => !scoreLt (score a) (score b)) =
      branches.mergeSort (FirstMax.notBelow (scoreKey score)) := by
  have hmap := List.map_mergeSort (r := fun a b => !scoreLt (score a) (score b))
    (s := FirstMax.notBelow (scoreKey score)) (f := id) (l := branches) fun a ha b hb => by
      rw [scoreLt_eq (h a ha) (h b hb), ← decide_not]
      simp only [not_lt]
      rfl
  simpa only [List.map_id_fun, id_eq] using hmap

/-- The cut is made exactly when a branch succeeded, and the winner of the flat selection
survives it. -/
theorem survivors_cases {branches : List BranchState} (h : Comparable score branches) :
    (branches.filter (fun b => b.status == .succeeded) = [] ∧ survivors score branches = none) ∨
    ∃ m keep, FirstMax.IsFirst (scoreKey score)
        (branches.filter fun b => b.status == .succeeded) m ∧
      survivors score branches = some keep ∧ keep.contains m.branchId = true := by
  cases hsucceeded : branches.filter fun b => b.status == .succeeded with
  | nil =>
    refine Or.inl ⟨rfl, ?_⟩
    unfold survivors
    rw [hsucceeded, List.mergeSort_nil]
    exact if_pos rfl
  | cons b bs =>
    have hfirst : FirstMax.IsFirst (scoreKey score) (b :: bs)
        (FirstMax.foldMax (scoreKey score) b bs) := FirstMax.foldMax_isFirst b bs
    set m := FirstMax.foldMax (scoreKey score) b bs
    obtain ⟨rest, hrest⟩ := FirstMax.head_mergeSort hfirst
    rw [← hsucceeded, ← ranked_eq (h.sublist List.filter_sublist)] at hrest
    have hsome : survivors score branches =
        some (((m :: rest).take (max 2 ((m :: rest).length / 2))).map (·.branchId)) := by
      unfold survivors
      rw [hrest]
      exact if_neg (List.cons_ne_nil m rest)
    refine Or.inr ⟨m, _, hfirst, hsome, ?_⟩
    -- At least two are kept, so the head is.
    obtain ⟨k, hk⟩ : ∃ k, max 2 ((m :: rest).length / 2) = k + 1 :=
      Nat.exists_eq_succ_of_ne_zero (by omega)
    rw [hk, List.take_succ_cons, List.map_cons]
    simp

/-- Deselected branches are not eligible, so the selection does not see that they were touched. -/
theorem eligible_deselect (keep : List String) (status : BranchStatus → Bool)
    (branches : List BranchState) :
    eligible (some keep) ((branches.map (deselect keep)).filter fun b => status b.status) =
      eligible (some keep) (branches.filter fun b => status b.status) := by
  unfold eligible
  dsimp only
  induction branches with
  | nil => rfl
  | cons b bs ih =>
    have hstatus : (deselect keep b).status = b.status := by
      unfold deselect
      split <;> rfl
    rw [List.map_cons, List.filter_cons, List.filter_cons, hstatus]
    by_cases hb : status b.status = true
    · rw [if_pos hb, if_pos hb, List.filter_cons, List.filter_cons]
      by_cases hkeep : keep.contains b.branchId = true
      · have hsame : deselect keep b = b := if_pos hkeep
        rw [hsame, if_pos hkeep, if_pos hkeep, ih]
      · have hid : (deselect keep b).branchId = b.branchId := by
          unfold deselect
          split <;> rfl
        rw [hid, if_neg hkeep, if_neg hkeep, ih]
    · rw [if_neg hb, if_neg hb, ih]

theorem selectPortfolioWinner_congr {branches branches' : List BranchState}
    {ids : Option (List String)}
    (h : ∀ status : BranchStatus → Bool, eligible ids (branches'.filter fun b => status b.status) =
      eligible ids (branches.filter fun b => status b.status)) :
    selectPortfolioWinner score branches' ids = selectPortfolioWinner score branches ids := by
  have hsucceeded := h fun status => status == .succeeded
  have hcompleted := h fun status => status == .failed || status == .timedOut
  unfold selectPortfolioWinner
  rw [hsucceeded, hcompleted]

/-- A selection that keeps the first of the best of the succeeded branches returns it. -/
theorem selectPortfolioWinner_eq {branches : List BranchState} {ids : Option (List String)}
    {m : BranchState} (hscores : Comparable score branches)
    (h : FirstMax.IsFirst (scoreKey score)
      (eligible ids (branches.filter fun b => b.status == .succeeded)) m) :
    selectPortfolioWinner score branches ids = some m := by
  unfold selectPortfolioWinner
  split
  · rename_i hnil
    rw [hnil] at h
    exact absurd h.mem List.not_mem_nil
  · exact bestBranch_eq_some
      (hscores.sublist ((eligible_sublist ids _).trans List.filter_sublist)) h

/-- The cut does not change the winner. -/
theorem selectPortfolioWinner_survivors {branches : List BranchState}
    (h : Comparable score branches) :
    selectPortfolioWinner score branches (survivors score branches) =
      selectPortfolioWinner score branches none := by
  rcases survivors_cases h with ⟨-, hnone⟩ | ⟨m, keep, hfirst, hsome, hkept⟩
  · rw [hnone]
  · have hflat : selectPortfolioWinner score branches none = some m :=
      selectPortfolioWinner_eq h hfirst
    rw [hsome, hflat]
    exact selectPortfolioWinner_eq h (hfirst.filter hkept)

theorem selectPortfolioWinner_layeredCut (branches : List BranchState) :
    selectPortfolioWinner score (layeredCut score branches) (survivors score branches) =
      selectPortfolioWinner score branches (survivors score branches) := by
  unfold layeredCut
  cases hsurvivors : survivors score branches with
  | none => rfl
  | some keep => exact selectPortfolioWinner_congr fun status => eligible_deselect keep status _

theorem selectPortfolioWinner_eq_none (branches : List BranchState) :
    selectPortfolioWinner score branches none = none ↔
      ∀ b ∈ branches, b.status.completed = false := by
  have hcompleted (b : BranchState) : b.status.completed = false ↔
      ¬ (b.status == .succeeded) = true ∧ ¬ (b.status == .failed || b.status == .timedOut) =
        true := by
    cases b.status <;> decide
  unfold selectPortfolioWinner eligible
  dsimp only
  cases hsucceeded : branches.filter fun b => b.status == .succeeded with
  | nil =>
    dsimp only
    rw [bestBranch_eq_none, List.filter_eq_nil_iff]
    constructor
    · intro h b hb
      exact (hcompleted b).mpr ⟨List.filter_eq_nil_iff.mp hsucceeded b hb, h b hb⟩
    · intro h b hb
      exact ((hcompleted b).mp (h b hb)).2
  | cons m rest =>
    dsimp only
    rw [bestBranch_eq_none]
    refine ⟨fun h => (by cases h), fun h => ?_⟩
    have hm : m ∈ branches.filter fun b => b.status == .succeeded := by
      rw [hsucceeded]
      exact List.mem_cons_self
    obtain ⟨hmem, hstatus⟩ := List.mem_filter.mp hm
    exact absurd hstatus ((hcompleted m).mp (h m hmem)).1

theorem comparable_portfolioScore {branches : List BranchState}
    (h : ∀ b ∈ branches, b.costUsd ≠ some .nan) : Comparable portfolioScore branches := by
  intro b hb
  have hcost := h b hb
  unfold portfolioScore
  dsimp only
  cases hb' : b.costUsd with
  | none => exact Cost.noConfusion
  | some cost =>
    rw [hb'] at hcost
    dsimp only
    split
    · exact Cost.noConfusion
    · cases cost <;> simp_all [Cost.neg]

/-- The layered reduction selects the winner of the flat selection, which exists unless no branch
completed, whatever the scores, if none of them is NaN; so `join` selects it whether it reduces in
layers or not, where no cost is NaN. -/
theorem layered_winner_eq_flat {branches : List BranchState} (h : Comparable score branches) :
    selectPortfolioWinner score (layeredCut score branches) (survivors score branches) =
        selectPortfolioWinner score branches none ∧
      (selectPortfolioWinner score branches none = none ↔
        ∀ b ∈ branches, b.status.completed = false) ∧
      ∀ s : RunState, (∀ b ∈ s.branches, b.costUsd ≠ some .nan) →
        portfolioWinner s = selectPortfolioWinner portfolioScore s.branches none := by
  refine ⟨?_, selectPortfolioWinner_eq_none branches, fun s hcost => ?_⟩
  · rw [selectPortfolioWinner_layeredCut, selectPortfolioWinner_survivors h]
  · unfold portfolioWinner
    split
    · exact selectPortfolioWinner_survivors (comparable_portfolioScore hcost)
    · rfl

end Reduction

/-- A branch that has succeeded at a cost, with nothing else to score. -/
def costing (id : String) (cost : Cost) : BranchState where
  branchId := id
  strategy := .portfolio
  workspaceRef := [id]
  status := .succeeded
  budget := default
  costUsd := some cost

/-- Eight branches, the sixth of them the cheapest, without and with a NaN cost. -/
def eightCosts (fifth : Cost) : List BranchState :=
  [costing "a" (.number 2), costing "b" (.number 2), costing "c" (.number 2),
    costing "d" (.number 2), costing "e" fifth, costing "f" (.number 1), costing "g" (.number 2),
    costing "h" (.number 2)]

theorem layered_winner_cheapest :
    (selectPortfolioWinner portfolioScore (eightCosts (.number 3)) none).map (·.branchId) =
        some "f" ∧
      selectPortfolioWinner portfolioScore (layeredCut portfolioScore (eightCosts (.number 3)))
        (survivors portfolioScore (eightCosts (.number 3))) =
      selectPortfolioWinner portfolioScore (eightCosts (.number 3)) none := by
  refine ⟨by decide +kernel, (layered_winner_eq_flat ?_).1⟩
  unfold Comparable
  decide +kernel

theorem merge_of_head {α : Type*} {le : α → α → Bool} {xs : List α} {y : α} (ys : List α)
    (h : ∀ x ∈ xs, le x y = true) : xs.merge (y :: ys) le = xs ++ y :: ys := by
  induction xs with
  | nil => exact List.nil_merge _
  | cons x xs ih =>
    rw [List.cons_merge_cons_pos _ _ _ (h x List.mem_cons_self),
      ih fun z hz => h z (List.mem_cons_of_mem x hz), List.cons_append]

/-- Each half of the branches is in order, and so is the second one's head behind the first. -/
theorem survivors_eightCosts :
    survivors portfolioScore (eightCosts .nan) = some ["a", "b", "c", "d"] := by
  have hsucceeded : (eightCosts .nan).filter (fun b => b.status == .succeeded) =
      eightCosts .nan := rfl
  have hsorted : (eightCosts .nan).mergeSort
      (fun a b => !scoreLt (portfolioScore a) (portfolioScore b)) = eightCosts .nan := by
    have hhalves : eightCosts .nan = (eightCosts .nan).take 4 ++ (eightCosts .nan).drop 4 :=
      (List.take_append_drop 4 _).symm
    unfold eightCosts
    rw [List.mergeSort]
    change List.merge (((eightCosts .nan).take 4).mergeSort _)
      (((eightCosts .nan).drop 4).mergeSort _) _ = eightCosts .nan
    rw [List.mergeSort_of_pairwise (by decide +kernel), List.mergeSort_of_pairwise
      (by decide +kernel)]
    exact (merge_of_head _ (by decide +kernel)).trans hhalves.symm
  unfold survivors
  rw [hsucceeded, hsorted]
  rfl

/-- A NaN cost parts the sort and the flat selection. -/
theorem not_layered_winner_nan :
    (selectPortfolioWinner portfolioScore (layeredCut portfolioScore (eightCosts .nan))
        (survivors portfolioScore (eightCosts .nan))).map (·.branchId) = some "a" ∧
      (selectPortfolioWinner portfolioScore (eightCosts .nan) none).map (·.branchId) =
        some "f" := by
  unfold layeredCut
  rw [survivors_eightCosts]
  decide +kernel

end Recertia.Graph
