import Recertia.Engine.Honest
import Recertia.Engine.Progress

/-! `join` after a retry. Branches are recorded by the first attempt and by no later one, yet every
`join` reads them again. -/
namespace Recertia.Graph

open FileTree (Tree)

/-- What `join` decides: the route and the signal that it leaves for `classify_failure`. -/
def decision (outcome : Except NodeError NodeOutcome) :
    Except NodeError (Option RouteName × Option FailureSignal) :=
  outcome.map fun o => (o.route, o.state.failureSignal)

/-- The same branch with another status, other results and another workspace recorded. -/
def Rerecorded (b b' : BranchState) : Prop :=
  ∃ status results workspaceRef, b' = { b with status, results, workspaceRef }

/-- `join` behind a second or later attempt. -/
def RetryJoin (w : World) : Prop := w.node = .join ∧ 2 ≤ w.state.attemptNo

/-- A retry is judged on the retry: what `join` decides is the same whatever status, results and
workspace the branches have on record, and where the criteria pass on the workdir that the retried
attempt left, it routes to `distill`. -/
structure Judged (py : Platform) (ctx : NodeContext) (s : RunState) (t : Tree) : Prop where
  independent : ∀ branches, List.Forall₂ Rerecorded s.branches branches →
    decision (join py ctx { s with branches } t) = decision (join py ctx s t)
  passes : ∀ o, join py ctx s t = .ok o → CriteriaPass py ctx s.criteria t →
    o.route = some .mergeCompleteAndPassing

def JudgedOnRetry (py : Platform) (w : World) (l : Label) (_ : World) : Prop :=
  ∀ ctx, l = .hop ctx → RetryJoin w → Judged py ctx w.state w.workdir

/-- The step is not a `join` behind a second or later attempt. -/
def NoRetryJoin (w : World) (l : Label) (_ : World) : Prop :=
  ∀ ctx, l = .hop ctx → ¬ RetryJoin w

section Records

variable {py : Platform} {ctx : NodeContext} {s : RunState} {t : Tree}

def withStatus (status : BranchStatus) (branches : List BranchState) : List BranchState :=
  branches.map fun b => { b with status }

theorem rerecorded_withStatus (status : BranchStatus) (branches : List BranchState) :
    List.Forall₂ Rerecorded branches (withStatus status branches) :=
  List.forall₂_map_right_iff.mpr
    (List.forall₂_same.mpr fun b _ => ⟨status, b.results, b.workspaceRef, rfl⟩)

/-- Branches that have timed out make `join` report a gap. -/
theorem decision_timedOut (hne : s.branches ≠ []) :
    ∃ detail, decision (join py ctx { s with branches := withStatus .timedOut s.branches } t) =
      .ok (some .otherwise, some { source := .join, detail }) := by
  have hmissing : missingBranches (withStatus .timedOut s.branches) ≠ [] := by
    rw [Ne, missingBranches_eq_nil]
    obtain ⟨b, bs, hb⟩ := List.exists_cons_of_ne_nil hne
    rw [hb]
    exact fun hall => Bool.noConfusion (hall _ List.mem_cons_self)
  rw [join, if_pos hmissing]
  exact ⟨_, rfl⟩

/-- A score blames the validator, if anyone. -/
theorem scoreCriteria_source {criteria : List TaskCriterion} {score : Score}
    (h : scoreCriteria py ctx criteria t = .ok score) {signal : FailureSignal}
    (hsignal : score.failureSignal = some signal) : signal.source = .validator := by
  unfold scoreCriteria at h
  split at h
  · obtain ⟨raw, -, h⟩ := Fallible.bind_eq_ok.mp h
    cases h
    dsimp only at hsignal
    split at hsignal
    · cases hsignal
      rfl
    · cases hsignal
  · cases h

/-- Branches that have failed do not. -/
theorem decision_failed (hne : s.branches ≠ []) {route : Option RouteName} {signal : FailureSignal}
    (h : decision (join py ctx { s with branches := withStatus .failed s.branches } t) =
      .ok (route, some signal)) : signal.source ≠ .join := by
  have hmissing : missingBranches (withStatus .failed s.branches) = [] := by
    rw [missingBranches_eq_nil]
    intro b hb
    obtain ⟨b, -, rfl⟩ := List.mem_map.mp hb
    rfl
  rw [join, if_neg (not_not.mpr hmissing)] at h
  split at h
  · -- the winner's workspace is laid over the workdir and scored
    unfold joinPortfolio at h
    cases hscore : scoreCriteria py ctx s.criteria
        (portfolioWorkdir { s with branches := withStatus .failed s.branches } t) with
    | error e =>
      simp only [hscore] at h
      cases h
    | ok score =>
      simp only [hscore] at h
      have hsignal : score.failureSignal = some signal := congrArg Prod.snd (Except.ok.inj h)
      rw [scoreCriteria_source hscore hsignal]
      decide
  · have hfailed : ((withStatus .failed s.branches).any fun b => b.status != .succeeded) = true := by
      obtain ⟨b, bs, hb⟩ := List.exists_cons_of_ne_nil hne
      rw [hb]
      rfl
    rw [joinDecomposition, if_pos hfailed] at h
    obtain rfl := Option.some.inj (congrArg Prod.snd (Except.ok.inj h))
    decide

/-- `join` always decides from the recorded branches. -/
theorem not_judged (hne : s.branches ≠ []) : ¬ Judged py ctx s t := by
  intro hjudged
  obtain ⟨detail, htimedOut⟩ := @decision_timedOut py ctx s t hne
  have hfailed := (hjudged.independent _ (rerecorded_withStatus .failed s.branches)).trans
    (hjudged.independent _ (rerecorded_withStatus .timedOut s.branches)).symm
  exact decision_failed hne (hfailed.trans htimedOut) rfl

end Records

theorem hasBranches_of_target_join {s : RunState} : ∀ r ∈ routes, r.target = .join →
    r.predicate s = true → hasBranches s = true := by
  simp [routes]

/-- `join` is entered with branches on record. -/
def Branched (node : Node) (s : RunState) : Prop := node = .join → s.branches ≠ []

theorem branched_step {py : Platform} {w w' : World} {l : Label} (hs : Branched w.node w.state)
    (h : (engine py).step w l = some w') : Branched w'.node w'.state := by
  refine checkpoint_step (fun node s _ => Branched node s) ?_ ?_ hs h
  · intro ctx w o r _ hcommitted _ htarget
    obtain ⟨snapshots, hstate⟩ := commitHop_state ctx w o r
    rw [hstate]
    have hbranches := hasBranches_of_target_join r hcommitted.chosen.mem htarget
      hcommitted.chosen.predicate
    simpa [hasBranches] using hbranches
  · intro s t snapshots _ hnode
    cases hnode

theorem judgedOnRetry_iff {py : Platform} {w w' : World} {l : Label}
    (hs : Branched w.node w.state) : JudgedOnRetry py w l w' ↔ NoRetryJoin w l w' :=
  ⟨fun hjudged ctx hl hretry => not_judged (hs hretry.1) (hjudged ctx hl hretry),
    fun hnone ctx hl hretry => (hnone ctx hl hretry).elim⟩

/-- An attempt after the first leaves the branches as they were recorded. -/
def KeepsRecords (w : World) (_ : Label) (w' : World) : Prop :=
  w.node = .solve → 1 ≤ w.state.attemptNo → w'.state.branches = w.state.branches

theorem keepsRecords_step {py : Platform} {w w' : World} {l : Label}
    (hs : Progress w.node w.state) (h : (engine py).step w l = some w') :
    KeepsRecords w l w' := by
  intro hsolve hattempt
  rcases step_cases h with ⟨workdir, -, -, -, rfl⟩ | ⟨ctx, e, -, -, rfl⟩ |
    ⟨ctx, -, -, -, rfl⟩ | ⟨ctx, o, r, -, -, -, ho, -, -, rfl⟩
  · rfl
  · rfl
  · rfl
  · rw [hsolve] at ho
    have hnone : pendingBranches w.state = [] := by
      by_contra hne
      have hzero := (hs.first hne).2.1
      omega
    obtain ⟨snapshots, hstate⟩ := commitHop_state ctx w o r
    rw [hstate]
    exact (solve_attempted ho hs.fresh).kept hnone

/-- No attempt after the first records a branch, so the branches that a retry's `join` finds are
those of the first attempt; and a run is judged on its retries exactly if no retry gets to `join`. -/
theorem retries_judged (py : Platform) (i : Start) (ls : List Label) :
    (engine py).Along KeepsRecords (start i) ls ∧
      ((engine py).Along (JudgedOnRetry py) (start i) ls ↔
        (engine py).Along NoRetryJoin (start i) ls) := by
  constructor
  · exact Transition.System.along_of_inductive (I := fun w => Progress w.node w.state)
      (fun _ _ _ hs hstep => progress_step hs hstep)
      (fun _ _ _ hs hstep => keepsRecords_step hs hstep) (progress_start i)
  · exact Transition.System.along_iff_of_invariant (I := fun w => Branched w.node w.state)
      (fun _ _ _ hs hstep _ => branched_step hs hstep)
      (fun _ _ _ hs _ => judgedOnRetry_iff hs) (fun hnode => by cases hnode) ls

def brokenFile : FileTree.Data := [0]

def fixedFile : FileTree.Data := [1]

/-- A portfolio over a workdir with a broken file. -/
def portfolioStart : Start :=
  { runId := "run"
    task := requestTask "PORTFOLIO: write out" (by decide +kernel)
    criteria := [provenCriterion "out"]
    workdir := FileTree.ofFiles [(["out"], brokenFile)] }

/-- The script repairs the file in the parent workdir; in a branch it only leaves a note. -/
def repairingHop : NodeContext where
  script := some ["fix"]
  command _ _ t := ⟨0, FileTree.write t ["out"] fixedFile⟩
  branchCommand branchId _ _ t := ⟨0, FileTree.write t [branchId, "note"] []⟩
  execute _ t :=
    if FileTree.read t ["out"] = some fixedFile then .exited 0 ""
    else .exited 1 (if (FileTree.read t ["note"]).isSome then "note" else "")

/-- The second attempt repairs the file and the criterion passes; `join` copies the first attempt's
winner over it, fails the criterion and routes to `classify_failure`. -/
theorem repaired_retry_fails :
    ((engine plainPlatform).run (start portfolioStart)
      (List.replicate 11 (.hop repairingHop))).map (fun w =>
        (w.node, w.state.attemptNo,
          (scoreCriteria plainPlatform repairingHop w.state.criteria w.workdir).toOption.map
            fun score => score.results.map fun r => r.passed)) =
      some (.join, 2, some [true]) ∧
    ((engine plainPlatform).run (start portfolioStart)
      (List.replicate 12 (.hop repairingHop))).map (fun w => (w.node, w.halted)) =
      some (.classifyFailure, none) := by
  decide +kernel

end Recertia.Graph
