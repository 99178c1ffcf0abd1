import Recertia.Node.Validate

/-! `join`: audit completeness, then select or reduce the fan-out branches and score the merged
artifact. -/
namespace Recertia.Graph

open FileTree (Path Data Tree)

def layerThreshold : ℕ := 8

abbrev PortfolioScore := ℕ × ℚ × Cost

/-- Passed required results, then advisory weight, then the negated cost. -/
def portfolioScore (b : BranchState) : PortfolioScore :=
  ((b.results.filter fun r => decide (1 ≤ r.weight) && r.passed).length,
    ((b.results.filter fun r => r.passed && decide (r.weight < 1)).map (·.weight)).sum,
    -- `b.cost_usd or b.spent.cost_usd`: a cost of zero counts as absent.
    Cost.neg (match b.costUsd with
      | some cost => if cost = .number 0 then .number b.spent.costUsd else cost
      | none => .number b.spent.costUsd))

/-- The lexicographic order of the scores. -/
def scoreLt (x y : PortfolioScore) : Bool :=
  decide (x.1 < y.1) || (x.1 == y.1 &&
    (decide (x.2.1 < y.2.1) || (x.2.1 == y.2.1 && x.2.2.lt y.2.2)))

section Selection
variable (score : BranchState → PortfolioScore)

/-- `max(branches, key=score)`: the first of the best. -/
def bestBranch : List BranchState → Option BranchState
  | [] => none
  | b :: bs => some (bs.foldl (fun best c => if scoreLt (score best) (score c) then c else best) b)

/-- The survivors of the mechanical reduction: the top half of the succeeded branches. -/
def survivors (branches : List BranchState) : Option (List String) :=
  let ranked := (branches.filter fun b => b.status == .succeeded).mergeSort fun a b =>
    !scoreLt (score a) (score b)
  if ranked = [] then none
  else some ((ranked.take (max 2 (ranked.length / 2))).map (·.branchId))

def eligible (ids : Option (List String)) (branches : List BranchState) : List BranchState :=
  match ids with
  | none => branches
  | some ids => branches.filter fun b => ids.contains b.branchId

def selectPortfolioWinner (branches : List BranchState) (ids : Option (List String)) :
    Option BranchState :=
  match eligible ids (branches.filter fun b => b.status == .succeeded) with
  | [] => bestBranch score (eligible ids
      (branches.filter fun b => b.status == .failed || b.status == .timedOut))
  | succeeded => bestBranch score succeeded

end Selection

def fanInDir : String := ".fan-in"

/-- Branch and fan-in directories are not copied into the artifact. -/
def excluded (branches : List BranchState) : List String :=
  branches.map (·.branchId) ++ [fanInDir]

/-- Copies the selected portfolio workspace into the parent workdir. -/
def materializePortfolioWinner (exclude : List String) (workspace : Path) (t : Tree) : Tree :=
  FileTree.writeAll t []
    ((FileTree.filesUnder t workspace).filter fun f => !FileTree.topIn exclude f.1)

/-- Copies the top-level items of the workdir below `target`, except dot files and `exclude`. -/
def copyBaseline (exclude : List String) (target : Path) (t : Tree) : Tree :=
  FileTree.writeAll t target
    ((FileTree.files t).filter fun f =>
      !FileTree.topIn exclude f.1 && !(f.1.head?.any fun name => Text.startsWith name "."))

def conflictDetail (relative : Path) : String :=
  "decomposition merge conflict at " ++ "/".intercalate relative

/-- The files of `source` that differ from the workdir. -/
def changedFiles (ctx : NodeContext) (t : Tree) (source : Path) : List (Path × Data) :=
  (FileTree.filesUnder t source).filter fun f =>
    !((FileTree.read t f.1).isSome && ctx.sameStat source f.1) && FileTree.read t f.1 != some f.2

/-- Merges changed files; two sources may not change one path to different contents. -/
def mergeFiles : List (Path × Data) → List (Path × Data) →
    Except NodeError (List (Path × Data))
  | seen, [] => .ok seen
  | seen, f :: fs =>
    if (seen.find? fun g => g.1 == f.1).any fun g => g.2 != f.2 then
      .error (.valueError (conflictDetail f.1))
    else mergeFiles (seen ++ [f]) fs

def mergeChangedSources (ctx : NodeContext) (sources : List Path) (target : Path) (t : Tree) :
    Except NodeError Tree := do
  let changed := sources.flatMap fun source => changedFiles ctx t source
  let merged ← mergeFiles [] changed
  return FileTree.writeAll t target merged

structure FanIn where
  sources : List (String × Path)
  batches : List (List String)
  workdir : Tree

/-- One level of the fan-in: every group of sources is merged into a fresh copy of the baseline. -/
def fanInLevel (ctx : NodeContext) (exclude : List String) (level : ℕ) :
    ℕ → List (List (String × Path)) → Tree → Except NodeError FanIn
  | _, [], t => .ok ⟨[], [], t⟩
  | batchNo, group :: groups, t => do
    let ids := group.map Prod.fst
    let target := [fanInDir,
      "level-" ++ toString level ++ "-batch-" ++ toString batchNo]
    let merged ← mergeChangedSources ctx (group.map Prod.snd) target (copyBaseline exclude target t)
    let rest ← fanInLevel ctx exclude level (batchNo + 1) groups merged
    return ⟨("+".intercalate ids, target) :: rest.sources, ids :: rest.batches, rest.workdir⟩

/-- The levels of the fan-in. A level with a width of at least two shortens the list of sources,
so the number of sources is enough fuel. -/
def fanInLevels (ctx : NodeContext) (exclude : List String) (width : ℕ) :
    ℕ → ℕ → List (String × Path) → Tree → Except NodeError FanIn
  | 0, _, sources, t => .ok ⟨sources, [], t⟩
  | fuel + 1, level, sources, t =>
    if sources.length ≤ 1 then .ok ⟨sources, [], t⟩
    else do
      let next ← fanInLevel ctx exclude level 0 (sources.toChunks width) t
      let rest ← fanInLevels ctx exclude width fuel (level + 1) next.sources next.workdir
      return { rest with batches := next.batches ++ rest.batches }

/-- Reduces branch workspaces into the parent artifact by bounded fan-in batches. -/
def materializeDecomposition (ctx : NodeContext) (branches : List BranchState) (layered : Bool)
    (t : Tree) : Except NodeError (Tree × List (List String)) := do
  let exclude := excluded branches
  let sources := (branches.filter fun b => b.kind == .decomposition).map
    fun b => (b.branchId, b.workspaceRef)
  let width := if layered then 4 else max 1 sources.length
  let fanIn ← fanInLevels ctx exclude width sources.length 0 sources
    (FileTree.removeTree t [fanInDir])
  let final : Path := [fanInDir, "final"]
  let merged ← mergeChangedSources ctx ((fanIn.sources.take 1).map Prod.snd) final
    (copyBaseline exclude final fanIn.workdir)
  return (materializePortfolioWinner exclude final merged, fanIn.batches)

def missingBranches (branches : List BranchState) : List String :=
  (branches.filter fun b => !b.status.received).map (·.branchId)

def mergeId (s : RunState) : String := s.runId ++ "-join-" ++ toString s.mergeAudits.length

/-- Whether the branches are reduced in layers. -/
def isLayered (s : RunState) : Bool := decide (layerThreshold ≤ s.branches.length)

/-- The audit of a fan-in that received every branch. -/
def joinAudit (s : RunState) : MergeAudit :=
  { mergeId := mergeId s
    expected := s.branches.length
    received := (s.branches.filter fun b => b.status.received).length
    action := .proceeded
    layered := isLayered s }

/-- A merge gap: the audit is flagged and the signal is raised. -/
def joinGap (s : RunState) (t : Tree) : NodeOutcome :=
  let missing := missingBranches s.branches
  let gap := Text.reprList missing
  { state := { s with
      mergeAudits := s.mergeAudits ++ [{ joinAudit s with missing, action := .flagged }]
      failureSignal := some { source := .join, detail := "merge gap: missing=" ++ gap }
      failure := some {
        failureClass := .merge
        evidence := ["missing branches: " ++ gap]
        countsAgainstTrust := false } }
    route := some .otherwise
    workdir := t }

/-- A decomposition that cannot be merged: the results of `validate` stay in the state. -/
def joinUnmerged (s : RunState) (signal : FailureSignal) (t : Tree) : NodeOutcome :=
  { state := { s with
      mergeAudits := s.mergeAudits ++ [{ joinAudit s with action := .failed }]
      failureSignal := some signal }
    route := some .otherwise
    workdir := t }

def joinScored (s : RunState) (audit : MergeAudit) (score : Score) (t : Tree) : NodeOutcome :=
  { state := { s with
      results := score.results
      resultsHistory := s.resultsHistory ++ [score.results]
      failureSignal := score.failureSignal
      mergeAudits := s.mergeAudits ++ [audit] }
    route := some (if score.failureSignal.isSome then .otherwise else .mergeCompleteAndPassing)
    workdir := t }

def isPortfolio (s : RunState) : Bool :=
  s.strategy == some .portfolio || s.branches.any fun b => b.kind == .portfolio

def portfolioWinner (s : RunState) : Option BranchState :=
  selectPortfolioWinner portfolioScore s.branches
    (if isLayered s && s.strategy == some .portfolio then survivors portfolioScore s.branches
      else none)

/-- Layered reduction deselects the losers; then the winner is the only one selected. -/
def markSelected (winner : Option BranchState) (branches : List BranchState) : List BranchState :=
  match winner with
  | none => branches
  | some w => branches.map fun b => { b with selected := b.branchId == w.branchId }

/-- The parent workdir with the winner's workspace copied over it. -/
def portfolioWorkdir (s : RunState) (t : Tree) : Tree :=
  match portfolioWinner s with
  | none => t
  | some w => materializePortfolioWinner (excluded s.branches) w.workspaceRef t

def joinPortfolio (py : Platform) (ctx : NodeContext) (s : RunState) (t : Tree) :
    Except NodeError NodeOutcome := do
  let workdir := portfolioWorkdir s t
  let score ← scoreCriteria py ctx s.criteria workdir
  return joinScored { s with branches := markSelected (portfolioWinner s) s.branches }
    (joinAudit s) score workdir

def joinDecomposition (py : Platform) (ctx : NodeContext) (s : RunState) (t : Tree) :
    Except NodeError NodeOutcome :=
  if s.branches.any fun b => b.status != .succeeded then
    .ok (joinUnmerged s { source := .solver, detail := "decomposition branch failed" } t)
  else match materializeDecomposition ctx s.branches (isLayered s) t with
    -- What a failed merge left below `.fan-in` is dropped: the next join removes that directory.
    | .error (.valueError detail) => .ok (joinUnmerged s { source := .join, detail } t)
    | .error e => .error e
    | .ok (workdir, batches) => do
      let score ← scoreCriteria py ctx s.criteria workdir
      return joinScored s { joinAudit s with batches } score workdir

def join (py : Platform) (ctx : NodeContext) (s : RunState) (t : Tree) :
    Except NodeError NodeOutcome :=
  if missingBranches s.branches ≠ [] then .ok (joinGap s t)
  else if isPortfolio s then joinPortfolio py ctx s t
  else joinDecomposition py ctx s t

theorem missingBranches_eq_nil {branches : List BranchState} :
    missingBranches branches = [] ↔ ∀ b ∈ branches, b.status.received = true := by
  simp [missingBranches, List.filter_eq_nil_iff]

/-- The audit of a fan-in without a gap is complete. -/
theorem joinAudit_isComplete {s : RunState} (h : missingBranches s.branches = []) :
    (joinAudit s).isComplete = true := by
  have hall : s.branches.filter (fun b => b.status.received) = s.branches :=
    List.filter_eq_self.mpr (missingBranches_eq_nil.mp h)
  simp [MergeAudit.isComplete, joinAudit, hall]

/-- Merging files fails only with a conflict. -/
theorem mergeFiles_error {seen fs : List (Path × Data)} {e : NodeError}
    (h : mergeFiles seen fs = .error e) : ∃ detail, e = .valueError detail := by
  induction fs generalizing seen with
  | nil => cases h
  | cons f fs ih =>
    unfold mergeFiles at h
    split at h
    · cases h
      exact ⟨_, rfl⟩
    · exact ih h

theorem mergeChangedSources_error {ctx : NodeContext} {sources : List Path} {target : Path}
    {t : Tree} {e : NodeError} (h : mergeChangedSources ctx sources target t = .error e) :
    ∃ detail, e = .valueError detail := by
  rcases Fallible.bind_eq_error.mp h with hm | ⟨merged, -, h⟩
  · exact mergeFiles_error hm
  · cases h

theorem fanInLevel_error {ctx : NodeContext} {exclude : List String} {level batchNo : ℕ}
    {groups : List (List (String × Path))} {t : Tree} {e : NodeError}
    (h : fanInLevel ctx exclude level batchNo groups t = .error e) :
    ∃ detail, e = .valueError detail := by
  induction groups generalizing batchNo t with
  | nil => cases h
  | cons group groups ih =>
    rcases Fallible.bind_eq_error.mp h with hm | ⟨merged, -, h⟩
    · exact mergeChangedSources_error hm
    · rcases Fallible.bind_eq_error.mp h with hr | ⟨rest, -, h⟩
      · exact ih hr
      · cases h

theorem fanInLevels_error {ctx : NodeContext} {exclude : List String} {width fuel level : ℕ}
    {sources : List (String × Path)} {t : Tree} {e : NodeError}
    (h : fanInLevels ctx exclude width fuel level sources t = .error e) :
    ∃ detail, e = .valueError detail := by
  induction fuel generalizing level sources t with
  | zero => cases h
  | succ fuel ih =>
    unfold fanInLevels at h
    split at h
    · cases h
    · rcases Fallible.bind_eq_error.mp h with hn | ⟨next, -, h⟩
      · exact fanInLevel_error hn
      · rcases Fallible.bind_eq_error.mp h with hr | ⟨rest, -, h⟩
        · exact ih hr
        · cases h

/-- A merge fails only with a conflict, which `join` catches. -/
theorem materializeDecomposition_error {ctx : NodeContext} {branches : List BranchState}
    {layered : Bool} {t : Tree} {e : NodeError}
    (h : materializeDecomposition ctx branches layered t = .error e) :
    ∃ detail, e = .valueError detail := by
  rcases Fallible.bind_eq_error.mp h with hf | ⟨fanIn, -, h⟩
  · exact fanInLevels_error hf
  · rcases Fallible.bind_eq_error.mp h with hm | ⟨merged, -, h⟩
    · exact mergeChangedSources_error hm
    · cases h

/-- The workdir that `join` scores, where it gets as far as scoring: the portfolio winner's files
over the parent, or the merged decomposition. -/
def scoredWorkdir (ctx : NodeContext) (s : RunState) (t : Tree) : Option Tree :=
  if missingBranches s.branches ≠ [] then none
  else if isPortfolio s then some (portfolioWorkdir s t)
  else if s.branches.any fun b => b.status != .succeeded then none
  else match materializeDecomposition ctx s.branches (isLayered s) t with
    | .error _ => none
    | .ok (workdir, _) => some workdir

/-- The spec of `join`: a gap, a decomposition that cannot be merged, or a fresh score of the
merged artifact. -/
theorem join_spec {py : Platform} {ctx : NodeContext} {s : RunState} {t : Tree}
    {o : NodeOutcome} (h : join py ctx s t = .ok o) :
    (missingBranches s.branches ≠ [] ∧ o = joinGap s t) ∨
    (missingBranches s.branches = [] ∧ scoredWorkdir ctx s t = none ∧
      ∃ signal, o = joinUnmerged s signal t) ∨
    (missingBranches s.branches = [] ∧ ∃ workdir score winner audit,
      scoredWorkdir ctx s t = some workdir ∧
      scoreCriteria py ctx s.criteria workdir = .ok score ∧ audit.isComplete = true ∧
      o = joinScored { s with branches := markSelected winner s.branches } audit score
        workdir) := by
  unfold join at h
  unfold scoredWorkdir
  by_cases hm : missingBranches s.branches ≠ []
  · rw [if_pos hm] at h
    cases h
    exact Or.inl ⟨hm, rfl⟩
  · have hmiss : missingBranches s.branches = [] := not_not.mp hm
    have haudit := joinAudit_isComplete hmiss
    rw [if_neg hm] at h
    simp only [if_neg hm]
    by_cases hp : isPortfolio s = true
    · rw [if_pos hp] at h
      obtain ⟨score, hscore, h⟩ := Fallible.bind_eq_ok.mp h
      cases h
      refine Or.inr (Or.inr ⟨hmiss, portfolioWorkdir s t, score, portfolioWinner s, joinAudit s,
        by rw [if_pos hp], hscore, haudit, rfl⟩)
    · rw [if_neg hp] at h
      simp only [if_neg hp]
      unfold joinDecomposition at h
      by_cases hf : (s.branches.any fun b => b.status != .succeeded) = true
      · rw [if_pos hf] at h
        cases h
        exact Or.inr (Or.inl ⟨hmiss, by rw [if_pos hf], _, rfl⟩)
      · rw [if_neg hf] at h
        simp only [if_neg hf]
        cases hmat : materializeDecomposition ctx s.branches (isLayered s) t with
        | error e =>
          obtain ⟨detail, rfl⟩ := materializeDecomposition_error hmat
          rw [hmat] at h
          cases h
          exact Or.inr (Or.inl ⟨hmiss, rfl, _, rfl⟩)
        | ok merged =>
          rw [hmat] at h
          obtain ⟨score, hscore, h⟩ := Fallible.bind_eq_ok.mp h
          cases h
          exact Or.inr (Or.inr ⟨hmiss, merged.1, score, none,
            { joinAudit s with batches := merged.2 }, rfl, hscore, haudit, rfl⟩)

end Recertia.Graph
