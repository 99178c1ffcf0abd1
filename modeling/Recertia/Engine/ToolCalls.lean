import Recertia.Engine.Honest
import Recertia.Engine.Progress

/-! The tool-call cap. The tool and scratch paths preflight every dispatch; the legacy script, the
skill applicator and the branches are charged for what they dispatched. -/
namespace Recertia.Graph

open FileTree (Tree)

def WithinCap (s : RunState) : Prop := s.spent.toolCalls ≤ s.budget.maxToolCalls

/-- The calls that the hop's path charges without a preflight fit the remaining budget: the
commands that a legacy script dispatches, the calls of a skill application, the charges of the
pending branches. -/
def CallsFit (ctx : NodeContext) (s : RunState) (t : Tree) : Prop :=
  ∀ path, solvePath ctx s = .ok path → ∀ calls ∈ unmeteredCalls ctx s t path,
    s.spent.toolCalls + calls ≤ s.budget.maxToolCalls

/-- `P` holds of the context, the state and the workdir of a solve hop that is checkpointed. -/
def AtSolve (P : NodeContext → RunState → Tree → Prop) (w : World) (l : Label) (w' : World) :
    Prop :=
  ∀ ctx, l = .hop ctx → w.node = .solve → w'.halted = none → P ctx w.state w.workdir

/-- An attempt stays within the cap exactly when its unmetered calls fit. -/
theorem solve_withinCap_iff {py : Platform} {ctx : NodeContext} {s : RunState} {t : Tree}
    {o : NodeOutcome} (h : solve py ctx s t = .ok o) (hs : WithinCap s) :
    WithinCap o.state ↔ CallsFit ctx s t := by
  have hbudget : o.state.budget = s.budget := (solve_frame h).budget
  obtain ⟨path, hpath, hcases⟩ := solve_spec h
  have hpathEq (q : SolvePath) (hq : solvePath ctx s = .ok q) : q = path := by
    rw [hpath] at hq
    exact (Except.ok.inj hq).symm
  unfold WithinCap CallsFit
  rw [hbudget]
  rcases hcases with ⟨rfl, run, -, hclose⟩ | ⟨-, n, hclose, hunmetered, hmetered⟩
  · have hcalls : o.state.spent.toolCalls = s.spent.toolCalls +
        chargedByBranches ctx s.branches t := hclose.toolCalls
    rw [hcalls]
    constructor
    · intro hle q hq calls hmem
      rw [hpathEq q hq] at hmem
      cases hmem
      exact hle
    · intro hfit
      exact hfit .branches hpath _ rfl
  · rw [hclose.toolCalls]
    constructor
    · intro hle q hq calls hmem
      rw [hpathEq q hq] at hmem
      rw [← hunmetered calls hmem]
      exact hle
    · intro hfit
      cases hcalls : unmeteredCalls ctx s t path with
      | none => exact hmetered hcalls hs
      | some calls =>
        rw [hunmetered calls hcalls]
        exact hfit path hpath calls hcalls

/-- A checkpoint stays within the cap exactly when the unmetered calls of its attempt fit. -/
theorem withinCap_step_iff {py : Platform} {w w' : World} {l : Label}
    (h : (engine py).step w l = some w') (hs : WithinCap w.state) :
    WithinCap w'.state ↔ AtSolve CallsFit w l w' := by
  rcases step_cases h with ⟨workdir, rfl, -, -, rfl⟩ | ⟨ctx, e, -, -, rfl⟩ |
    ⟨ctx, -, -, -, rfl⟩ | ⟨ctx, o, r, rfl, -, -, ho, -, -, rfl⟩
  · exact ⟨fun _ _ hl => (by cases hl), fun _ => hs⟩
  · exact ⟨fun _ _ _ _ hnone => (by cases hnone), fun _ => hs⟩
  · exact ⟨fun _ _ _ _ hnone => (by cases hnone), fun _ => hs⟩
  · obtain ⟨snapshots, hstate⟩ := commitHop_state ctx w o r
    have hkeep : WithinCap (commitHop ctx w o r).state ↔ WithinCap o.state := by
      rw [hstate]
      exact Iff.rfl
    rw [hkeep]
    by_cases hsolve : w.node = .solve
    · rw [hsolve] at ho
      rw [solve_withinCap_iff ho hs]
      constructor
      · intro hfit c hc _ _
        cases hc
        exact hfit
      · intro hfit
        exact hfit ctx rfl hsolve rfl
    · have hframe := nodeFuncs_frame ho
      have hsame : WithinCap o.state := by
        unfold WithinCap
        rw [hframe.toolCalls hsolve, hframe.budget]
        exact hs
      exact ⟨fun _ _ _ hnode => (hsolve hnode).elim, fun _ => hsame⟩

/-- Every branch that waits for its first attempt has a reservation for `commands` commands. -/
def BranchRoom (commands : ℕ) (s : RunState) : Prop :=
  s.spent.toolCalls + (pendingBranches s).length * commands ≤ s.budget.maxToolCalls ∨
    pendingBranches s = []

theorem branchRoom_of_fanOut {ctx : NodeContext} {s : RunState} {t : Tree} {o : NodeOutcome}
    (h : fanOut ctx s t = .ok o) (hs : pendingBranches s = []) :
    BranchRoom (scriptOrTrue ctx).length o.state := by
  rcases fanOut_spec h with ⟨-, hstate | hstate⟩ | ⟨exhausted, rfl⟩ |
    ⟨branches, requested, hdispatched, rfl⟩
  · rw [hstate]
    exact Or.inr hs
  · rw [hstate]
    exact Or.inr rfl
  · exact Or.inr hs
  · refine Or.inl ?_
    have hlen : (pendingBranches (dispatchBranches s t branches requested).state).length ≤
        branches.length := List.length_filter_le _ _
    have hmul := Nat.mul_le_mul_right (scriptOrTrue ctx).length hlen
    exact (Nat.add_le_add_left hmul _).trans hdispatched.toolCalls

/-- Only `fan_out` makes branches pending. -/
theorem branchRoom_commit {py : Platform} {ctx : NodeContext} {w : World} {o : NodeOutcome}
    {r : Route} (h : Committed py ctx w o r) (hs : Progress w.node w.state) {commands : ℕ}
    (hscript : (scriptOrTrue ctx).length = commands) : BranchRoom commands o.state := by
  have houtcome := h.outcome
  by_cases hsolve : w.node = .solve
  · rw [hsolve] at houtcome
    exact Or.inr (solve_attempted houtcome hs.fresh).noPending
  · have hnone : pendingBranches w.state = [] := noPending_of_not_solve hs hsolve
    by_cases hfanOut : w.node = .fanOut
    · rw [hfanOut] at houtcome
      rw [← hscript]
      exact branchRoom_of_fanOut houtcome hnone
    · exact Or.inr (pendingBranches_kept houtcome hsolve hfanOut hnone)

/-- The branches are charged for at most one script each. -/
theorem chargedByBranches_le (ctx : NodeContext) (branches : List BranchState) (t : Tree)
    (hfresh : ∀ b ∈ branches.filter (fun b => b.status.pending), b.spent.toolCalls = 0) :
    chargedByBranches ctx branches t ≤
      (branches.filter fun b => b.status.pending).length * (scriptOrTrue ctx).length := by
  induction branches generalizing t with
  | nil => exact Nat.zero_le _
  | cons b bs ih =>
    unfold chargedByBranches
    by_cases hp : b.status.pending = true
    · simp only [hp, if_true, List.filter_cons] at hfresh ⊢
      have hb : (branchCharge ctx b t).1 ≤ (scriptOrTrue ctx).length :=
        branchCharge_le ctx b t (hfresh b List.mem_cons_self)
      have hbs := ih (branchCharge ctx b t).2 fun c hc => hfresh c (List.mem_cons_of_mem b hc)
      rw [List.length_cons, Nat.add_mul, Nat.one_mul]
      omega
    · simp only [hp, List.filter_cons] at hfresh ⊢
      exact ih t hfresh

/-- The hops of a run whose contexts all have a script of one length. -/
def ScriptLength (commands : ℕ) (l : Label) : Prop :=
  ∀ ctx, l = .hop ctx → (scriptOrTrue ctx).length = commands

theorem branchRoom_step {py : Platform} {commands : ℕ} {w w' : World} {l : Label}
    (hs : Progress w.node w.state ∧ BranchRoom commands w.state)
    (h : (engine py).step w l = some w') (hl : ScriptLength commands l) :
    Progress w'.node w'.state ∧ BranchRoom commands w'.state := by
  refine ⟨progress_step hs.1 h, ?_⟩
  rcases step_cases h with ⟨workdir, -, -, -, rfl⟩ | ⟨ctx, e, -, -, rfl⟩ |
    ⟨ctx, -, -, -, rfl⟩ | ⟨ctx, o, r, rfl, -, hnode, ho, -, hr, rfl⟩
  · exact hs.2
  · exact hs.2
  · exact hs.2
  · have hroom := branchRoom_commit ⟨hnode, ho, hr⟩ hs.1 (hl ctx rfl)
    obtain ⟨snapshots, hstate⟩ := commitHop_state ctx w o r
    rw [hstate]
    exact hroom

/-- The branches fit when the script is as long as it was at their dispatch. -/
theorem branches_fit {ctx : NodeContext} {node : Node} {s : RunState} {t : Tree}
    (hs : Progress node s) (hroom : BranchRoom (scriptOrTrue ctx).length s)
    (hpath : solvePath ctx s = .ok .branches) : CallsFit ctx s t := by
  intro path hq calls hmem
  rw [hpath] at hq
  cases hq
  cases hmem
  have hne : pendingBranches s ≠ [] :=
    (solvePath_eq_branches_iff hpath hs.fresh).mp rfl
  have hcharged : chargedByBranches ctx s.branches t ≤
      (pendingBranches s).length * (scriptOrTrue ctx).length := by
    apply chargedByBranches_le
    intro b hb
    rw [(hs.fresh b hb).2]
  have hfits := hroom.resolve_right hne
  omega

/-- The cap holds along a run exactly when the unmetered calls of every attempt fit; those of the
branches do whenever the script keeps its length. -/
theorem calls_within_cap (py : Platform) (i : Start) :
    (∀ ls, (engine py).Along (fun _ _ w' => WithinCap w'.state) (start i) ls ↔
      (engine py).Along (AtSolve CallsFit) (start i) ls) ∧
    (∀ commands ls, (∀ l ∈ ls, ScriptLength commands l) →
      (engine py).Along (AtSolve fun ctx s t =>
        solvePath ctx s = .ok .branches → CallsFit ctx s t) (start i) ls) := by
  have hstart : WithinCap (start i).state := Nat.zero_le _
  constructor
  · intro ls
    constructor
    · intro hcap
      exact Transition.System.along_of_invariant (I := fun w => WithinCap w.state)
        (fun _ _ _ _ _ hg => hg)
        (fun _ _ _ hs hstep hg => (withinCap_step_iff hstep hs).mp hg) hstart hcap
    · intro hfit
      exact Transition.System.along_of_invariant (I := fun w => WithinCap w.state)
        (fun _ _ _ hs hstep hg => (withinCap_step_iff hstep hs).mpr hg)
        (fun _ _ _ hs hstep hg => (withinCap_step_iff hstep hs).mpr hg) hstart hfit
  · intro commands ls hls
    refine Transition.System.along_of_invariant
      (I := fun w => Progress w.node w.state ∧ BranchRoom commands w.state)
      (G := fun _ l _ => ScriptLength commands l)
      (fun _ _ _ hs hstep hl => branchRoom_step hs hstep hl) ?_
      ⟨progress_start i, Or.inr rfl⟩ (Transition.System.along_of_labels _ hls)
    intro w l w' hs _ hl ctx hctx _ _ hpath
    have hroom := hs.2
    rw [← hl ctx hctx] at hroom
    exact branches_fit hs.1 hroom hpath

/-- A single tool call, and a legacy script of two commands. -/
def frugalStart : Start :=
  { scriptedStart with budget := { maxToolCalls := 1, valid := by decide } }

def twoCommandsHop : NodeContext := { script := some ["mkdir dir", "touch out"] }

/-- Neither tools nor transcripts are configured: both commands are dispatched and charged. -/
theorem legacy_script_overspends :
    ((engine plainPlatform).run (start frugalStart) (List.replicate 4 (.hop twoCommandsHop))).map
      (fun w => (w.halted, w.state.spent.toolCalls, w.state.budget.maxToolCalls)) =
    some (none, 2, 1) := by decide +kernel

end Recertia.Graph
