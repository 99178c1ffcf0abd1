import Recertia.Engine.Honest
import Recertia.Engine.Progress

/-! The retry loop is bounded: every attempt is charged, a retry needs a remaining attempt, and so
an execution is over after a number of hops that is linear in the attempt budget. -/
namespace Recertia.Graph

/-- The most hops that can still be checkpointed, with `k` attempts left. One turn of the loop is
five hops: `solve`, `validate`, `join`, `classify_failure`, `evolve`. -/
def hopsLeft (k : ℕ) : Node → ℕ
  | .intake => 5 * k + 7
  | .retrieve => 5 * k + 6
  | .plan => 5 * k + 5
  | .fanOut => 5 * k + 4
  | .solve => 5 * k + 1
  | .validate => 5 * k + 5
  | .join => 5 * k + 4
  | .classifyFailure => 5 * k + 3
  | .evolve => 5 * k + 2
  | .distill => 3
  | .review => 2
  | .store => 1
  | .recordDeadEnd => 1
  | .rejectDraft => 1
  | .finalize => 0

def attemptsLeft (s : RunState) : ℕ := s.budget.maxAttempts - s.spent.attempts

def hopsLeftAt (node : Node) (s : RunState) : ℕ := hopsLeft (attemptsLeft s) node

/-- Every route but those out of `solve` uses a hop up. -/
theorem hopsLeft_lt_of_route : ∀ r ∈ routes, r.source ≠ .solve → ∀ k,
    hopsLeft k r.target < hopsLeft k r.source := by
  intro r hr hsolve k
  simp only [routes, List.mem_cons, List.not_mem_nil, or_false] at hr
  rcases hr with rfl | rfl | rfl | rfl | rfl | rfl | rfl | rfl | rfl | rfl | rfl | rfl | rfl |
    rfl | rfl | rfl | rfl | rfl | rfl | rfl | rfl | rfl | rfl | rfl <;>
    simp only [hopsLeft, ne_eq, not_true_eq_false] at hsolve ⊢ <;> omega

/-- A route out of `solve` uses a hop up because the attempt was charged. -/
theorem hopsLeft_lt_of_attempt : ∀ r ∈ routes, r.source = .solve → ∀ j k, j < k →
    hopsLeft j r.target < hopsLeft k .solve := by
  intro r hr hsolve j k hjk
  have htarget : r.target = .classifyFailure ∨ r.target = .validate := by
    revert hsolve
    revert r
    decide
  rcases htarget with ht | ht <;> rw [ht] <;> simp only [hopsLeft] <;> omega

theorem solve_charges {py : Platform} {ctx : NodeContext} {w : World} {o : NodeOutcome}
    {r : Route} (h : Committed py ctx w o r) (hnode : w.node = .solve)
    (hs : Progress w.node w.state) :
    w.state.spent.attempts + 1 ≤ o.state.spent.attempts ∧
      o.state.spent.attempts ≤ o.state.budget.maxAttempts := by
  have houtcome := h.outcome
  rw [hnode] at houtcome
  have hbudget : o.state.budget = w.state.budget := (nodeFuncs_frame houtcome).budget
  have hattempts := (solve_attempted houtcome hs.fresh).attempts
  have hroom := hs.room (Or.inl hnode)
  rw [hbudget]
  omega

/-- A commit uses a hop up. -/
theorem hopsLeftAt_commit {py : Platform} {ctx : NodeContext} {w : World} {o : NodeOutcome}
    {r : Route} (h : Committed py ctx w o r) (hs : Progress w.node w.state) :
    hopsLeftAt r.target (commitHop ctx w o r).state < hopsLeftAt w.node w.state := by
  have hkeep : attemptsLeft (commitHop ctx w o r).state = attemptsLeft o.state := by
    obtain ⟨snapshots, hstate⟩ := commitHop_state ctx w o r
    rw [hstate]
    rfl
  have hframe := nodeFuncs_frame h.outcome
  unfold hopsLeftAt
  rw [hkeep]
  by_cases hsolve : w.node = .solve
  · have hcharges := solve_charges h hsolve hs
    have hbudget := hframe.budget
    rw [hsolve]
    apply hopsLeft_lt_of_attempt r h.chosen.mem (h.chosen.source.trans hsolve)
    unfold attemptsLeft
    rw [hbudget] at hcharges ⊢
    omega
  · have hsame : attemptsLeft o.state = attemptsLeft w.state := by
      unfold attemptsLeft
      rw [hframe.attempts hsolve, hframe.budget]
    rw [hsame, ← h.chosen.source]
    exact hopsLeft_lt_of_route r h.chosen.mem (by rw [h.chosen.source]; exact hsolve) _

/-- The hops that are checkpointed and those that are left stay within the bound. -/
structure Bounded (i : Start) (w : World) : Prop where
  progress : Progress w.node w.state
  budget : w.state.budget = i.budget
  hops : w.state.routeLog.length + hopsLeftAt w.node w.state ≤ 5 * i.budget.maxAttempts + 7

theorem bounded_start (i : Start) : Bounded i (start i) where
  progress := progress_start i
  budget := rfl
  hops := by simp [start, hopsLeftAt, hopsLeft, attemptsLeft]

theorem bounded_step {py : Platform} {i : Start} {w w' : World} {l : Label}
    (hs : Bounded i w) (h : (engine py).step w l = some w') : Bounded i w' := by
  have hprogress := progress_step hs.progress h
  rcases step_cases h with ⟨workdir, -, -, -, rfl⟩ | ⟨ctx, e, -, -, rfl⟩ |
    ⟨ctx, -, -, hnode, rfl⟩ | ⟨ctx, o, r, -, -, hnode, ho, -, hr, rfl⟩
  · exact ⟨hprogress, hs.budget, hs.hops⟩
  · exact ⟨hprogress, hs.budget, hs.hops⟩
  · exact ⟨hprogress, hs.budget, hs.hops⟩
  · have hlt := hopsLeftAt_commit ⟨hnode, ho, hr⟩ hs.progress
    have hops := hs.hops
    refine ⟨hprogress, ?_, ?_⟩
    · obtain ⟨snapshots, hstate⟩ := commitHop_state ctx w o r
      rw [hstate]
      exact (nodeFuncs_frame ho).budget.trans hs.budget
    · rw [commitHop_routeLog ho, List.length_append, List.length_singleton, commitHop_node]
      omega

theorem bounded_of_run {py : Platform} {i : Start} {ls : List Label} {w : World}
    (h : (engine py).run (start i) ls = some w) : Bounded i w :=
  Transition.System.run_invariant (I := Bounded i)
    (fun _ _ _ hs hstep => bounded_step hs hstep) (bounded_start i) h

theorem steps_of_tooManySteps {py : Platform} {ctx : NodeContext} {w : World}
    (h : (hop py ctx w).halted = some (.raised .tooManySteps)) :
    maxGraphSteps ≤ w.steps := by
  unfold hop at h
  split at h
  · rename_i hsteps
    exact Nat.lt_succ_iff.mp hsteps
  · split at h
    · cases h
    · unfold settle at h
      split at h
      · cases h
      · split at h
        · cases h
        · split at h
          · cases h
          · rw [commitHop_halted] at h
            cases h

/-- How an execution of at most `bound` hops ends: with a terminal, or with an exception, which is
the step guard only where the bound reaches it. -/
def Over (bound : ℕ) (w : World) : Prop :=
  (w.halted = some .finished ∧ w.state.terminal.isSome = true) ∨
    ∃ e, w.halted = some (.raised e) ∧ (e = .tooManySteps → maxGraphSteps < bound)

/-- What the hops of one execution keep until it is over. -/
def Executing (i : Start) (w : World) : Prop :=
  Bounded i w ∧ ((w.halted = none ∧ w.steps ≤ w.state.routeLog.length) ∨
    Over (5 * i.budget.maxAttempts + 8) w)

/-- The variant of an execution. -/
def hopsToEnd (w : World) : ℕ :=
  if w.halted.isSome then 0 else hopsLeftAt w.node w.state + 1

theorem executing_hop {py : Platform} {i : Start} {ctx : NodeContext} {w : World}
    (hs : Executing i w) (hover : ¬ Over (5 * i.budget.maxAttempts + 8) w) :
    ∃ w', (engine py).step w (.hop ctx) = some w' ∧ Executing i w' ∧
      hopsToEnd w' < hopsToEnd w := by
  obtain ⟨hbounded, hrunning⟩ := hs
  have hrun : w.halted = none ∧ w.steps ≤ w.state.routeLog.length :=
    hrunning.resolve_right hover
  have hstep : (engine py).step w (.hop ctx) = some (hop py ctx w) := by
    show (if w.halted.isSome then none else some (hop py ctx w)) = some (hop py ctx w)
    rw [hrun.1]
    rfl
  have hbounded' := bounded_step hbounded hstep
  have hvariant : hopsToEnd w = hopsLeftAt w.node w.state + 1 := by
    unfold hopsToEnd
    rw [hrun.1]
    rfl
  refine ⟨hop py ctx w, hstep, ?_⟩
  rw [hvariant]
  have hguard : (hop py ctx w).halted = some (.raised .tooManySteps) → maxGraphSteps ≤ w.steps :=
    steps_of_tooManySteps
  rcases step_cases hstep with ⟨workdir, hl, -, -, -⟩ | ⟨_, e, -, -, hnext⟩ |
    ⟨_, -, -, -, hnext⟩ | ⟨_, o, r, -, -, hnode, ho, -, hr, hnext⟩
  · cases hl
  · rw [hnext] at hbounded' hguard ⊢
    refine ⟨⟨hbounded', Or.inr (Or.inr ⟨e, rfl, ?_⟩)⟩, Nat.zero_lt_succ _⟩
    intro he
    have hsteps := hguard (by rw [he]; rfl)
    have hops := hbounded.hops
    omega
  · rw [hnext] at hbounded' ⊢
    exact ⟨⟨hbounded', Or.inr (Or.inl ⟨rfl, rfl⟩)⟩, Nat.zero_lt_succ _⟩
  · rw [hnext] at hbounded' ⊢
    have hlt := hopsLeftAt_commit ⟨hnode, ho, hr⟩ hbounded.progress
    refine ⟨⟨hbounded', Or.inl ⟨rfl, ?_⟩⟩, Nat.succ_lt_succ hlt⟩
    rw [commitHop_routeLog ho, List.length_append, List.length_singleton, commitHop_steps]
    omega

/-- One execution: `n` hops from the start, each in its own context. -/
def hops (ctxs : ℕ → NodeContext) (n : ℕ) : List Label :=
  (List.range n).map fun k => .hop (ctxs k)

/-- Every execution is over after a number of hops that is linear in the attempt budget. -/
theorem execution_over (py : Platform) (i : Start) (ctxs : ℕ → NodeContext) :
    ∃ n ≤ 5 * i.budget.maxAttempts + 8, ∃ w, (engine py).run (start i) (hops ctxs n) = some w ∧
      Over (5 * i.budget.maxAttempts + 8) w := by
  have hstart : Executing i (start i) :=
    ⟨bounded_start i, Or.inl ⟨rfl, Nat.zero_le _⟩⟩
  have hvariant : hopsToEnd (start i) = 5 * i.budget.maxAttempts + 8 := by
    simp [hopsToEnd, start, hopsLeftAt, hopsLeft, attemptsLeft]
  obtain ⟨n, hn, w, hw, -, hover⟩ := Transition.System.exists_stopped (T := engine py)
    (f := fun k => .hop (ctxs k)) (μ := hopsToEnd)
    (fun w k hI hstop => executing_hop hI hstop) hstart
  exact ⟨n, by rwa [hvariant] at hn, w, hw, hover⟩

/-- What the steps of the retry loop do to the attempt counter. -/
structure RetryStep (w : World) (l : Label) (w' : World) : Prop where
  attempt : (∃ ctx, l = .hop ctx) → w.node = .solve → w'.halted = none →
    w.state.spent.attempts + 1 ≤ w'.state.spent.attempts
  retry : w.node = .classifyFailure → w'.node = .evolve →
    w.state.spent.attempts < w.state.budget.maxAttempts

theorem retryStep_of_step {py : Platform} {w w' : World} {l : Label}
    (hs : Progress w.node w.state) (h : (engine py).step w l = some w') : RetryStep w l w' := by
  rcases step_cases h with ⟨workdir, rfl, -, -, rfl⟩ | ⟨ctx, e, -, -, rfl⟩ |
    ⟨ctx, -, -, hnode, rfl⟩ | ⟨ctx, o, r, -, -, hnode, ho, -, hr, rfl⟩
  · refine ⟨?_, fun hc he => ?_⟩
    · rintro ⟨ctx, hl⟩
      cases hl
    · rw [hc] at he
      cases he
  · refine ⟨fun _ _ hnone => (by cases hnone), fun hc he => ?_⟩
    rw [raiseError_node, hc] at he
    cases he
  · refine ⟨fun _ _ hnone => (by cases hnone), fun hc _ => ?_⟩
    rw [hnode] at hc
    cases hc
  · have hcommitted : Committed py ctx w o r := ⟨hnode, ho, hr⟩
    refine ⟨fun _ hsolve _ => ?_, fun _ htarget => attempts_lt_of_retry hcommitted htarget⟩
    have hcharges := (solve_charges hcommitted hsolve hs).1
    obtain ⟨snapshots, hstate⟩ := commitHop_state ctx w o r
    rw [hstate]
    exact hcharges

/-- The retry loop is bounded. -/
theorem retries_bounded (py : Platform) (i : Start) :
    (∀ ls, (engine py).Along RetryStep (start i) ls) ∧
    (∀ ls w, (engine py).run (start i) ls = some w →
      w.state.spent.attempts ≤ i.budget.maxAttempts ∧
        w.state.routeLog.length ≤ 5 * i.budget.maxAttempts + 7) ∧
    (∀ ctxs, ∃ n ≤ 5 * i.budget.maxAttempts + 8, ∃ w,
      (engine py).run (start i) (hops ctxs n) = some w ∧
        Over (5 * i.budget.maxAttempts + 8) w) := by
  refine ⟨fun ls => ?_, fun ls w h => ?_, fun ctxs => execution_over py i ctxs⟩
  · exact Transition.System.along_of_inductive (I := fun w => Progress w.node w.state)
      (fun _ _ _ hs hstep => progress_step hs hstep)
      (fun _ _ _ hs hstep => retryStep_of_step hs hstep) (progress_start i)
  · have hbounded := bounded_of_run h
    have hattempts := hbounded.progress.attempts
    have hops := hbounded.hops
    rw [hbounded.budget] at hattempts
    exact ⟨hattempts, by omega⟩

theorem retries_bounded_scripted :
    ∃ w, (engine plainPlatform).run (start scriptedStart) (hops (fun _ => scriptedHop) 7) =
        some w ∧ w.state.spent.attempts ≤ 4 ∧ w.state.routeLog.length ≤ 27 := by
  have hrun : ((engine plainPlatform).run (start scriptedStart)
      (hops (fun _ => scriptedHop) 7)).isSome = true := by decide +kernel
  obtain ⟨w, hw⟩ := Option.isSome_iff_exists.mp hrun
  exact ⟨w, hw, (retries_bounded plainPlatform scriptedStart).2.1 _ w hw⟩

/-- A budget of a thousand attempts. -/
def patientStart : Start :=
  { scriptedStart with budget := { maxAttempts := 1000, valid := by decide } }

def failingHop : NodeContext := { script := some ["false"], command := fun _ _ t => ⟨1, t⟩ }

/-- With attempts left the step guard ends the execution, and it never reaches `finalize`. -/
theorem patient_run_raises :
    ((engine plainPlatform).run (start patientStart) (hops (fun _ => failingHop) 501)).map
        (fun w => (w.halted, w.state.terminal)) = some (some (.raised .tooManySteps), none) ∧
      ∀ n w, (engine plainPlatform).run (start patientStart) (hops (fun _ => failingHop) n) =
        some w → w.halted ≠ some .finished := by
  have hrun : ((engine plainPlatform).run (start patientStart)
      (hops (fun _ => failingHop) 501)).map (fun w => (w.halted, w.state.terminal)) =
        some (some (.raised .tooManySteps), none) := by decide +kernel
  refine ⟨hrun, fun n w hw hfinished => ?_⟩
  obtain ⟨v, hv, hhalted⟩ := Option.map_eq_some_iff.mp hrun
  have hstuck (u : World) (hu : u.halted.isSome = true) :
      (engine plainPlatform).step u (.hop failingHop) = none := if_pos hu
  have hsplit (m k : ℕ) : hops (fun _ => failingHop) (m + (k + 1)) =
      hops (fun _ => failingHop) m ++ .hop failingHop :: hops (fun _ => failingHop) k := by
    simp [hops, List.replicate_add, List.replicate_succ]
  rcases Nat.lt_trichotomy n 501 with hlt | rfl | hgt
  · obtain ⟨k, hk⟩ : ∃ k, 501 = n + (k + 1) := ⟨500 - n, by omega⟩
    rw [hk, hsplit, Transition.System.run_append_eq_none hw
      (hstuck w (by rw [hfinished]; rfl))] at hv
    cases hv
  · rw [hv] at hw
    cases hw
    rw [hfinished] at hhalted
    cases hhalted
  · obtain ⟨k, rfl⟩ : ∃ k, n = 501 + (k + 1) := ⟨n - 502, by omega⟩
    have hraised : v.halted = some (.raised .tooManySteps) := congrArg Prod.fst hhalted
    rw [hsplit, Transition.System.run_append_eq_none hv
      (hstuck v (by rw [hraised]; rfl))] at hw
    cases hw

end Recertia.Graph
