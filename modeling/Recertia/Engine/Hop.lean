import Recertia.Lib.Transition
import Recertia.Node.Join
import Recertia.Node.Repair
import Recertia.Node.Solve
import Recertia.Node.Terminal

/-! The graph orchestrator: one hop runs a node, checks its route against the table, takes the
pre-solve snapshot and checkpoints. -/
namespace Recertia.Graph

open FileTree (Tree)

/-- A safety valve against a routing defect looping forever. -/
def maxGraphSteps : ℕ := 500

inductive RunError
  | node (error : NodeError)
  | illegalRoute (node : Node) (route : Option RouteName)
  | tooManySteps
  | tooManyVersions
  deriving DecidableEq

/-- How an execution ended: after `finalize`, or with an exception. -/
inductive Halt
  | finished
  | raised (error : RunError)
  deriving DecidableEq

/-- `state` and `node` are the last checkpoint; `steps` counts the hops of this execution. -/
structure World where
  state : RunState
  node : Node := .intake
  workdir : Tree
  snapshots : SnapshotStore := []
  steps : ℕ := 0
  halted : Option Halt := none

/-- A hop in a context, or a resume from the last checkpoint after a pause, a crash or an
exception. A crash in the middle of a hop leaves any workdir. -/
inductive Label
  | hop (ctx : NodeContext)
  | resume (workdir : Tree)

def nodeFuncs (py : Platform) (ctx : NodeContext) (node : Node) (snapshots : SnapshotStore)
    (s : RunState) (t : Tree) : Except NodeError NodeOutcome :=
  match node with
  | .intake => intake py ctx s t
  | .retrieve => .ok (retrieve ctx s t)
  | .plan => .ok (plan ctx s t)
  | .fanOut => fanOut ctx s t
  | .solve => solve py ctx s t
  | .validate => validate py ctx s t
  | .join => join py ctx s t
  | .classifyFailure => classifyFailure ctx s t
  | .evolve => evolve ctx snapshots s
  | .distill => distill ctx s t
  | .review => .ok (review ctx s t)
  | .store => store ctx s t
  | .recordDeadEnd => .ok (recordDeadEnd s t)
  | .rejectDraft => .ok (rejectDraft s t)
  | .finalize => .ok (finalize s t)

/-- The legal route the outcome names; without a name the legal route has to be the only one. -/
def chooseRoute (node : Node) (o : NodeOutcome) : Option Route :=
  match o.route, legalRoutes node o.state with
  | some name, legal => legal.find? fun r => r.predicateName == name
  | none, [r] => some r
  | none, _ => none

/-- The state with its first snapshot, and the store that holds the tree. -/
def ensurePreSolveSnapshot (ctx : NodeContext) (chosen : Route) (s : RunState) (t : Tree)
    (snapshots : SnapshotStore) : RunState × SnapshotStore :=
  if chosen.target ≠ .solve ∨ s.workspaceSnapshots ≠ [] then (s, snapshots)
  else
    let snapshotRef := s.runId ++ "-attempt0-" ++ ctx.snapshotSuffix
    ({ s with workspaceSnapshots := [{ attemptNo := 0, snapshotRef }] },
      (snapshotRef, t) :: snapshots)

def attemptNoForCtx (w : World) : ℕ :=
  if w.node = .solve then w.state.attemptNo + 1 else w.state.attemptNo

/-- The checkpoint after a hop along `chosen`. -/
def commitHop (ctx : NodeContext) (w : World) (o : NodeOutcome) (chosen : Route) : World :=
  let pre := ensurePreSolveSnapshot ctx chosen o.state o.workdir w.snapshots
  { state := { pre.1 with routeLog := pre.1.routeLog ++
      [{ node := w.node, route := chosen.predicateName, attemptNo := attemptNoForCtx w }] }
    node := chosen.target
    workdir := o.workdir
    snapshots := pre.2
    steps := w.steps + 1 }

def raiseError (w : World) (e : RunError) : World := { w with halted := some (.raised e) }

/-- What the loop body does with the outcome of the node. -/
def settle (ctx : NodeContext) (w : World) (o : NodeOutcome) : World :=
  if o.state.budget.maxVersionsWritten < o.state.spent.versionsWritten then
    raiseError w .tooManyVersions
  else if w.node = .finalize then
    { w with
      state := o.state
      workdir := o.workdir
      steps := w.steps + 1
      halted := some .finished }
  else match chooseRoute w.node o with
    | none => raiseError w (.illegalRoute w.node o.route)
    | some chosen => commitHop ctx w o chosen

/-- One turn of the loop of `_execute`. -/
def hop (py : Platform) (ctx : NodeContext) (w : World) : World :=
  if maxGraphSteps < w.steps + 1 then raiseError w .tooManySteps
  else match nodeFuncs py ctx w.node w.snapshots w.state w.workdir with
    | .error e => raiseError w (.node e)
    | .ok o => settle ctx w o

/-- A finished run stays as it is; a run without a checkpoint cannot be resumed. -/
def resume (w : World) (workdir : Tree) : Option World :=
  if w.halted = some .finished ∨ w.state.routeLog = [] then none
  else some { w with workdir, steps := 0, halted := none }

def engine (py : Platform) : Transition.System World Label where
  step w l := match l with
    | .hop ctx => if w.halted.isSome then none else some (hop py ctx w)
    | .resume workdir => resume w workdir

/-- What `start` passes to `intake`. -/
structure Start where
  runId : String
  task : Task
  criteria : List TaskCriterion := []
  budget : Budget := default
  arm : Arm := .treatment
  workdir : Tree := ∅

def start (i : Start) : World :=
  { state := { runId := i.runId, task := i.task, criteria := i.criteria, budget := i.budget,
               arm := i.arm }
    workdir := i.workdir }

end Recertia.Graph
