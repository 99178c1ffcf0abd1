import Mathlib.Logic.Function.Basic
import Recertia.Engine.Hop
import Recertia.Mea.Runtime

/-! Any number of multi-round runs under one runs root: each hop of the graph with its state
hooks, the sidecar files that these write outside the hop's transaction, crashes and resumes. -/
namespace Recertia.Mea

open FileTree (Tree)
open Graph (NodeContext Platform TaskCriterion)

abbrev RunId := String

/-- A sidecar file; a write that is cut off leaves a text that does not load. -/
inductive Sidecar
  | absent
  | torn
  | saved (state : AuditedTaskState)
  deriving DecidableEq

/-- The name of the sidecar of a run, without its suffix. -/
def pathFor (runId : RunId) : String :=
  Text.replace (Text.replace runId "/" "_") ".." "_"

/-- A run: its last checkpoint, the audited deltas among its committed events, and whether a
process executes it. `created` is the state that the committed intake hop has saved. -/
structure RunWorld where
  graph : Graph.World
  task : MeaTask
  meaActive : Bool := false
  meaFallbackReason : Option String := none
  deltas : List AuditorDelta := []
  created : Option AuditedTaskState := none
  running : Bool := true

structure World where
  runs : RunId → Option RunWorld
  sidecars : String → Sidecar

/-- What one hop finds around it. -/
structure HopEnv where
  ctx : NodeContext
  policy : Option Policy
  now : Int

/-- Where a crash, or an exception of the commit, cuts a hop: before the sidecar is opened for
writing, in the middle of the write, or between the write and the end of the commit. -/
inductive Cut
  | beforeSave
  | midSave
  | afterSave
  deriving DecidableEq, Repr

inductive Label
  | start (i : Graph.Start) (task : MeaTask)
  | hop (r : RunId) (env : HopEnv) (cut : Option Cut)
  | resume (r : RunId) (workdir : Tree)

/-- What the state hooks make of a hop: the state to save, and what is committed. -/
structure Hooked where
  save : Option AuditedTaskState := none
  meaActive : Bool
  meaFallbackReason : Option String
  delta : Option AuditorDelta := none

variable (py : Platform) (criteriaHash : List TaskCriterion → String)

def bindAfterIntake (env : HopEnv) (rw : RunWorld) (graph : Graph.World) : Hooked :=
  let activation := resolveFromRun rw.task graph.state env.policy
  if activation.active ∧ graph.state.criteria ≠ [] then
    { save := some (createAuditedState criteriaHash rw.task graph.state env.policy env.now)
      meaActive := true, meaFallbackReason := none }
  else if shouldNoteFallback activation then
    { meaActive := false, meaFallbackReason := activation.fallbackReason }
  else { meaActive := rw.meaActive, meaFallbackReason := rw.meaFallbackReason }

/-- Nothing where the sidecar does not load, which ends the hop with an exception. -/
def auditAfterValidate (env : HopEnv) (rw : RunWorld) (graph : Graph.World) (sidecar : Sidecar) :
    Option Hooked :=
  let unchanged : Hooked := { meaActive := rw.meaActive, meaFallbackReason := rw.meaFallbackReason }
  if !rw.meaActive then some unchanged
  else match sidecar with
    | .absent => some unchanged
    | .torn => none
    | .saved audited =>
      match applyValidateAudit audited graph.state (Graph.attemptNoForCtx rw.graph) env.now with
      | .error _ => some unchanged
      | .ok (next, delta) => some { unchanged with save := some next, delta := some delta }

/-- The state hooks in their order; each looks at one node. -/
def stateHops (env : HopEnv) (rw : RunWorld) (graph : Graph.World) (sidecar : Sidecar) :
    Option Hooked :=
  match rw.graph.node with
  | .intake => some (bindAfterIntake criteriaHash env rw graph)
  | .validate => auditAfterValidate env rw graph sidecar
  | _ => some { meaActive := rw.meaActive, meaFallbackReason := rw.meaFallbackReason }

/-- The run behind the commit of a hop. -/
def commitHop (rw : RunWorld) (graph : Graph.World) (hooked : Hooked) : RunWorld :=
  { rw with
    graph
    meaActive := hooked.meaActive
    meaFallbackReason := hooked.meaFallbackReason
    deltas := rw.deltas ++ hooked.delta.toList
    created := if rw.graph.node = .intake then hooked.save else rw.created }

/-- The process that executes the run is gone; the checkpoint stays. -/
def RunWorld.dead (rw : RunWorld) : RunWorld := { rw with running := false }

def setRun (w : World) (r : RunId) (rw : RunWorld) : World :=
  { w with runs := Function.update w.runs r (some rw) }

def setSidecar (w : World) (r : RunId) (sidecar : Sidecar) : World :=
  { w with sidecars := Function.update w.sidecars (pathFor r) sidecar }

def saveState (w : World) (r : RunId) (save : Option AuditedTaskState) : World :=
  match save with
  | none => w
  | some state => setSidecar w r (.saved state)

def tearState (w : World) (r : RunId) (save : Option AuditedTaskState) : World :=
  match save with
  | none => w
  | some _ => setSidecar w r .torn

/-- A hop whose node has returned and whose route is legal: the hooks, then the commit. -/
def hookedHop (w : World) (r : RunId) (rw : RunWorld) (graph : Graph.World) (hooked : Hooked) :
    Option Cut → World
  | none => setRun (saveState w r hooked.save) r (commitHop rw graph hooked)
  | some .beforeSave => setRun w r rw.dead
  | some .midSave => setRun (tearState w r hooked.save) r rw.dead
  | some .afterSave => setRun (saveState w r hooked.save) r rw.dead

/-- One hop of a run. `finalize` and an exception end the loop without the hooks. -/
def hop (w : World) (r : RunId) (rw : RunWorld) (env : HopEnv) (cut : Option Cut) : World :=
  let graph := Graph.hop py env.ctx rw.graph
  if graph.halted.isSome then
    match cut with
    | none => setRun w r { rw with graph }
    | some _ => setRun w r rw.dead
  else
    match stateHops criteriaHash env rw graph (w.sidecars (pathFor r)) with
    | none => setRun w r rw.dead
    | some hooked => hookedHop w r rw graph hooked cut

/-- A start needs a run id without a checkpoint, a hop a process, and a resume a checkpoint. -/
def step (w : World) : Label → Option World
  | .start i task =>
    if (w.runs i.runId).all fun rw => rw.graph.state.routeLog.isEmpty then
      some (setRun w i.runId { graph := Graph.start i, task })
    else none
  | .hop r env cut =>
    match w.runs r with
    | none => none
    | some rw =>
      if !rw.running || rw.graph.halted.isSome then none
      else some (hop py criteriaHash w r rw env cut)
  | .resume r workdir =>
    match w.runs r with
    | none => none
    | some rw =>
      match Graph.resume rw.graph workdir with
      | none => none
      | some graph => some (setRun w r { rw with graph, running := true })

def system : Transition.System World Label := ⟨step py criteriaHash⟩

/-- No runs yet, and any sidecar files. -/
def fresh (sidecars : String → Sidecar) : World := ⟨fun _ => none, sidecars⟩

end Recertia.Mea
