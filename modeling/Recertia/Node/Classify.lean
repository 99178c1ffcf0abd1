import Recertia.Node.Sound

/-! When `classify_failure` returns a verdict that `FailureVerdict.is_consistent` accepts. -/
namespace Recertia.Graph

open FileTree (Tree)

/-- A state with a failure signal gets a consistent verdict, and the route that the node names is
the only one that is legal with it. -/
def Classifies (ctx : NodeContext) (s : RunState) (t : Tree) : Prop :=
  ∀ signal, s.failureSignal = some signal →
    ∃ o verdict route, classifyFailure ctx s t = .ok o ∧ o.state.failure = some verdict ∧
      verdict.isConsistent = true ∧ legalRoutes .classifyFailure o.state = [route] ∧
      o.route = some route.predicateName

/-- The assertion on the verdict stops the node exactly at a criteria verdict. -/
theorem classifyFailure_assertion_iff (ctx : NodeContext) (s : RunState) (t : Tree) :
    classifyFailure ctx s t =
        .error (.assertionError "classify_failure produced an inconsistent verdict") ↔
      ∃ signal, s.failureSignal = some signal ∧
        (verdictFor ctx s signal).failureClass = .criteria := by
  constructor
  · intro h
    cases hsignal : s.failureSignal with
    | none =>
      simp only [classifyFailure, hsignal] at h
      cases h
    | some signal =>
      refine ⟨signal, rfl, ?_⟩
      by_contra hclass
      obtain ⟨o, ho⟩ := (classifyFailure_isOk ctx s t).mpr ⟨signal, hsignal, hclass⟩
      rw [ho] at h
      cases h
  · rintro ⟨signal, hsignal, hclass⟩
    have hconsistent : (verdictFor ctx s signal).isConsistent = false := by
      rw [verdictFor_isConsistent, hclass]
      rfl
    simp only [classifyFailure, hsignal, hconsistent, Bool.not_false, if_true]

/-- What is classified is everything but a validator's or the orchestrator's signal, short of a
budget failure, over a failed required criterion with a proof that does not reject. -/
theorem classifies_iff (ctx : NodeContext) (s : RunState) (t : Tree) :
    Classifies ctx s t ↔ ClassifySound s := by
  constructor
  · intro h signal hsignal
    obtain ⟨o, -, -, ho, -⟩ := h signal hsignal
    obtain ⟨found, hfound, hclass⟩ := (classifyFailure_isOk ctx s t).mp ⟨o, ho⟩
    have hsame : found = signal := by
      rw [hsignal] at hfound
      exact (Option.some.inj hfound).symm
    subst hsame
    exact (verdictFor_criteria_iff ctx s found).mp hclass
  · intro h signal hsignal
    have hclass := (verdictFor_criteria_iff ctx s signal).mpr (h signal hsignal)
    obtain ⟨o, ho⟩ := (classifyFailure_isOk ctx s t).mpr ⟨signal, hsignal, hclass⟩
    obtain ⟨found, hfound, hspec⟩ := classifyFailure_spec ho
    have hsame : found = signal := by
      rw [hsignal] at hfound
      exact (Option.some.inj hfound).symm
    subst hsame hspec
    have hconsistent : (verdictFor ctx s found).isConsistent = true := by
      rw [verdictFor_isConsistent, Bool.not_eq_true', beq_eq_false_iff_ne]
      exact hclass
    -- The two routes out of the node exclude each other, and the node reads the same table.
    have hroutes := legalRoutes_classifyFailure { s with failure := some (verdictFor ctx s found) }
    by_cases hretry : budgetRemainsWithProgress
        { s with failure := some (verdictFor ctx s found) } = true
    · rw [if_pos hretry] at hroutes
      refine ⟨_, _, _, ho, rfl, hconsistent, hroutes, ?_⟩
      rw [if_pos hretry]
    · rw [if_neg hretry] at hroutes
      refine ⟨_, _, _, ho, rfl, hconsistent, hroutes, ?_⟩
      rw [if_neg hretry]

/-- A validator's signal over a criterion whose proof does not reject its negative fixture. -/
def unprovenFailure : RunState where
  runId := "run-1"
  task := { request := some "fix it", requireGoalOrRequest := Or.inr ⟨"fix it", rfl, by decide⟩ }
  criteria :=
    [{ id := "check", check := .command "true" 0
       sensitivityProof := some ⟨"check", "empty", false, none, none⟩ }]
  results := [{ criterionId := "check", passed := false }]
  failureSignal := some ⟨.validator, "a required, proven criterion failed", none⟩

theorem not_classifies_unproven : ¬ ∀ (ctx : NodeContext) (s : RunState) (t : Tree),
    Classifies ctx s t := by
  intro h
  obtain ⟨o, -, -, ho, -⟩ := h {} unprovenFailure ∅ _ rfl
  have hraises : classifyFailure {} unprovenFailure ∅ =
      .error (.assertionError "classify_failure produced an inconsistent verdict") := by
    apply (classifyFailure_assertion_iff _ _ _).mpr
    exact ⟨_, rfl, by decide +kernel⟩
  rw [hraises] at ho
  cases ho

end Recertia.Graph
