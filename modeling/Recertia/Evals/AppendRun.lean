import Recertia.Evals.Observations
import Recertia.Runtime.HopCommit

/-! `EvalStore.append_run`: one observation for a run, derived from its locked terminal state. -/
namespace Recertia.Evals

open Graph (RunState SkillCandidateRef)

/-- The columns of the payload that `append_run` reads and `RunState` leaves out. -/
structure Manifest where
  criteriaLockedAt : Option String
  criteriaHash : Option String
  indexSnapshotId : Option String
  suppressedSkill : Option SkillCandidateRef := none

inductive ObservationError
  | nonTerminal | notLocked | noTaskClass | noIndexSnapshot
  | alreadyRecorded (runId : String)

def ObservationError.text (repr : String → String) : ObservationError → String
  | .nonTerminal => "cannot record an observation for a non-terminal run"
  | .notLocked => "cannot record a run whose criteria were not locked"
  | .noTaskClass => "cannot record a run without a task_class"
  | .noIndexSnapshot => "cannot record a run without index_snapshot_id"
  | .alreadyRecorded runId => "run " ++ repr runId ++ " already has an immutable observation"

/-- A text that Python takes for true. -/
def truthy (text : Option String) : Option String := text.filter fun t => t ≠ ""

/-- Every required criterion that is no judge has a result without an error, and there is one. -/
def validNonJudgeEvidence (state : RunState) : Bool :=
  let required := state.criteria.filter fun c => c.isRequired && c.kind ≠ .judge
  !required.isEmpty && required.all fun c =>
    state.results.any fun r => r.criterionId = c.id && !r.errored

/-- What a caller of `append_run` may add to a state, and the clock. -/
structure AppendArgs where
  strategyOverride : Option String := none
  forceEvalFixture : Bool := false
  recordedAt : String

def observationOf (state : RunState) (manifest : Manifest) (args : AppendArgs)
    (taskClass snapshotId : String) : Observation where
  taskClass
  arm := state.arm
  snapshotId
  firstAttemptSuccess := state.terminal = some .solved ∧ state.attemptNo = 1
  terminal := state.terminal.map Runtime.terminalText
  isEvalFixture := state.task.isEvalFixture || args.forceEvalFixture
  strategy := args.strategyOverride <|> state.strategy.map Graph.Strategy.text
  skillId := state.chosen.map SkillCandidateRef.skillId
  skillVersion := state.chosen.map SkillCandidateRef.version
  suppressedSkillId := manifest.suppressedSkill.map SkillCandidateRef.skillId
  suppressedSkillVersion := manifest.suppressedSkill.map SkillCandidateRef.version
  validNonJudgeEvidence := validNonJudgeEvidence state
  recordedAt := args.recordedAt

/-- `append_run`. The one constraint that the `INSERT` can violate is the primary key. -/
def appendRun (state : RunState) (manifest : Manifest) (args : AppendArgs) (store : EvalStore) :
    Except ObservationError EvalStore :=
  if state.terminal = none then .error .nonTerminal
  else if manifest.criteriaLockedAt = none ∨ manifest.criteriaHash = none then .error .notLocked
  else
    match truthy state.task.taskClass, truthy manifest.indexSnapshotId with
    | none, _ => .error .noTaskClass
    | some _, none => .error .noIndexSnapshot
    | some taskClass, some snapshotId =>
      match store.insert state.runId (observationOf state manifest args taskClass snapshotId) with
      | none => .error (.alreadyRecorded state.runId)
      | some store => .ok store

/-- Every outcome: a new row under the id of the run, a row that is there, or a state that is
refused whatever the store holds. -/
theorem appendRun_cases (state : RunState) (manifest : Manifest) (args : AppendArgs)
    (store : EvalStore) :
    (∃ o store', appendRun state manifest args store = .ok store' ∧
      store.insert state.runId o = some store') ∨
    (appendRun state manifest args store = .error (.alreadyRecorded state.runId) ∧
      state.runId ∈ store.keys) ∨
    ∃ e, appendRun state manifest args store = .error e ∧ ∀ runId, e ≠ .alreadyRecorded runId := by
  unfold appendRun
  split
  · exact Or.inr (Or.inr ⟨_, rfl, fun runId h => by cases h⟩)
  split
  · exact Or.inr (Or.inr ⟨_, rfl, fun runId h => by cases h⟩)
  split
  · exact Or.inr (Or.inr ⟨_, rfl, fun runId h => by cases h⟩)
  · exact Or.inr (Or.inr ⟨_, rfl, fun runId h => by cases h⟩)
  · split
    · rename_i hinsert
      exact Or.inr (Or.inl ⟨rfl, Table.insert_eq_none.mp hinsert⟩)
    · rename_i hinsert
      exact Or.inl ⟨_, _, rfl, hinsert⟩

variable {state : RunState} {manifest : Manifest} {args : AppendArgs} {store store' : EvalStore}

theorem insert_of_appendRun (h : appendRun state manifest args store = .ok store') :
    ∃ o, store.insert state.runId o = some store' := by
  rcases appendRun_cases state manifest args store with ⟨o, t, hok, hinsert⟩ | ⟨herr, -⟩ | ⟨e, herr, -⟩
  · have ht : t = store' := Except.ok.inj (hok.symm.trans h)
    exact ⟨o, ht ▸ hinsert⟩
  · rw [herr] at h
    cases h
  · rw [herr] at h
    cases h

/-- Behind an `append_run` that returns, the run has an observation. -/
theorem mem_keys_of_appendRun (h : appendRun state manifest args store = .ok store') :
    state.runId ∈ store'.keys := by
  obtain ⟨o, hinsert⟩ := insert_of_appendRun h
  have hrows := (Table.insert_eq_some.mp hinsert).2
  exact Table.mem_keys.mpr ⟨o, hrows ▸ List.mem_append_right _ List.mem_cons_self⟩

/-- Observations are appended: none is replaced or removed. -/
theorem rows_subset_appendRun (h : appendRun state manifest args store = .ok store') :
    store.rows ⊆ store'.rows := by
  obtain ⟨o, hinsert⟩ := insert_of_appendRun h
  rw [(Table.insert_eq_some.mp hinsert).2]
  exact List.subset_append_left _ _

theorem mem_keys_of_alreadyRecorded {runId : String}
    (h : appendRun state manifest args store = .error (.alreadyRecorded runId)) :
    state.runId ∈ store.keys := by
  rcases appendRun_cases state manifest args store with ⟨o, t, hok, -⟩ | ⟨-, hkey⟩ | ⟨e, herr, hne⟩
  · rw [hok] at h
    cases h
  · exact hkey
  · exact absurd (Except.error.inj (herr.symm.trans h)) (hne runId)

/-- `"already has an immutable observation" in str(exc)` -/
def ObservationError.saysRecorded (repr : String → String) (e : ObservationError) : Bool :=
  Text.contains (e.text repr) "already has an immutable observation"

/-- The text tells this error from the others, whatever the id of the run is. -/
theorem saysRecorded_iff (repr : String → String) (e : ObservationError) :
    e.saysRecorded repr = true ↔ ∃ runId, e = .alreadyRecorded runId := by
  constructor
  · intro h
    cases e with
    | alreadyRecorded runId => exact ⟨runId, rfl⟩
    | nonTerminal | notLocked | noTaskClass | noIndexSnapshot =>
      simp only [ObservationError.saysRecorded, ObservationError.text] at h
      exfalso
      revert h
      decide +kernel
  · rintro ⟨runId, rfl⟩
    apply decide_eq_true
    have hsplit : " already has an immutable observation" =
      " " ++ "already has an immutable observation" := by decide +kernel
    refine ⟨("run " ++ repr runId ++ " ").toList, [], ?_⟩
    calc ("run " ++ repr runId ++ " ").toList ++ "already has an immutable observation".toList ++ []
      _ = ("run " ++ repr runId ++ (" " ++ "already has an immutable observation")).toList := by
        rw [List.append_nil, ← String.append_assoc, ← String.toList_append]
      _ = _ := by rw [ObservationError.text, hsplit]

end Recertia.Evals
