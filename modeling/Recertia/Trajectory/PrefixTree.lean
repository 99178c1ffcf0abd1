import Recertia.Lib.Backtrack
import Recertia.Lib.OrderedForest

/-! `build_prefix_tree`: the derived prefix-tree view over a run's trajectory. -/
namespace Recertia.Trajectory

inductive EventKind
  | criteriaLocked | retrievalResult | planChoice | stepStarted | stepFinished | artifactProduced
  | criterionScored | failureClassified | evolveDecision | distillCandidate | mergeAudit | terminal
  | lateSignal | auditedStateDelta
  deriving DecidableEq, Repr

def EventKind.text : EventKind → String
  | .criteriaLocked => "criteria_locked"
  | .retrievalResult => "retrieval_result"
  | .planChoice => "plan_choice"
  | .stepStarted => "step_started"
  | .stepFinished => "step_finished"
  | .artifactProduced => "artifact_produced"
  | .criterionScored => "criterion_scored"
  | .failureClassified => "failure_classified"
  | .evolveDecision => "evolve_decision"
  | .distillCandidate => "distill_candidate"
  | .mergeAudit => "merge_audit"
  | .terminal => "terminal"
  | .lateSignal => "late_signal"
  | .auditedStateDelta => "audited_state_delta"

structure TrajectoryEvent where
  seq : ℕ
  node : String
  attemptNo : ℕ
  eventKind : EventKind
  deriving DecidableEq, Repr

/-- `_CALL_KINDS` -/
def EventKind.isCall : EventKind → Bool
  | .stepStarted => true
  | .planChoice => true
  | .distillCandidate => true
  | .evolveDecision => true
  | _ => false

/-- The fields of a `PrefixNode` other than its children. `object` tells the nodes of one tree
apart, as their identity does. -/
structure PrefixInfo where
  object : ℕ
  key : String
  eventKind : EventKind
  node : String
  attemptNo : ℕ
  seq : ℕ
  dead : Bool := false
  deriving DecidableEq, Repr

abbrev Forest := OrderedForest PrefixInfo

abbrev PrefixNode := OrderedForest.Node PrefixInfo

/-- The event that a node was made for. -/
def PrefixInfo.call (x : PrefixInfo) : TrajectoryEvent :=
  { seq := x.seq, node := x.node, attemptNo := x.attemptNo, eventKind := x.eventKind }

def prefixInfo (object : ℕ) (event : TrajectoryEvent) : PrefixInfo :=
  { object
    key := event.node ++ ":" ++ toString event.attemptNo ++ ":" ++ event.eventKind.text ++ ":" ++
      toString event.seq
    eventKind := event.eventKind
    node := event.node
    attemptNo := event.attemptNo
    seq := event.seq }

/-- The loop of `leaf_seqs` over the children of a node, and over the roots. -/
def leafSeqs : Forest → List ℕ
  | .nil => []
  | .cons x children rest =>
    (if children.isEmpty then (if x.dead then [] else [x.seq]) else leafSeqs children) ++
      leafSeqs rest

structure PrefixTree where
  roots : Forest
  eventCount : ℕ
  keptLeafSeqs : List ℕ
  prunedLeafSeqs : List ℕ
  deriving DecidableEq, Repr

/-- The loop of `walk` over the children of `parent`, and over the roots, which have none. -/
def walk (x : PrefixInfo) (parent : Option PrefixNode) : Forest → Option PrefixNode
  | .nil => none
  | .cons y children rest =>
    if y = x then parent
    else match walk x (some ⟨y, children⟩) children with
      | some found => some found
      | none => walk x parent rest

def parentOf (x : PrefixInfo) (roots : Forest) : Option PrefixNode := walk x none roots

def siblings (x : PrefixInfo) (roots : Forest) : List PrefixInfo :=
  match parentOf x roots with
  | none => roots.roots
  | some parent => parent.children.roots

/-- What the loop over the calls keeps. -/
structure Building where
  roots : Forest := .nil
  byNode : String → List PrefixInfo := fun _ => []
  parentStack : List PrefixInfo := []
  objects : ℕ := 0

def Building.enter (b : Building) (x : PrefixInfo) (roots : Forest)
    (parentStack : List PrefixInfo) : Building :=
  { roots
    byNode := fun node => if node = x.node then b.byNode node ++ [x] else b.byNode node
    parentStack
    objects := b.objects + 1 }

/-- A call below the previous one; the first call is a root. -/
def Building.push (b : Building) (x : PrefixInfo) : Building :=
  b.enter x
    (match b.parentStack.getLast? with
      | some parent => OrderedForest.appendChild parent (.single x) b.roots
      | none => b.roots.append (.single x))
    (b.parentStack ++ [x])

/-- A call beside the previous attempt of its graph node. -/
def Building.retry (b : Building) (previous x : PrefixInfo) : Building :=
  b.enter x
    (match parentOf previous b.roots with
      | some parent => OrderedForest.appendChild parent.label (.single x) b.roots
      | none => b.roots.append (.single x))
    [x]

def Building.add (b : Building) (event : TrajectoryEvent) : Building :=
  let x := prefixInfo b.objects event
  match (b.byNode event.node).getLast? with
  | some previous => if previous.attemptNo < event.attemptNo then b.retry previous x else b.push x
  | none => b.push x

def calls (events : List TrajectoryEvent) : List TrajectoryEvent :=
  events.filter fun e => e.eventKind.isCall

def failedAttempts (events : List TrajectoryEvent) : List ℕ :=
  (events.filter fun e => e.eventKind = .failureClassified).map fun e => e.attemptNo

/-- Whether `mark` prunes a leaf: its attempt failed and a sibling is of a later attempt. -/
def abandoned (roots : Forest) (failed : List ℕ) (x : PrefixInfo) : Bool :=
  failed.contains x.attemptNo && (siblings x roots).any fun y => x.attemptNo < y.attemptNo

/-- The loop of `mark` over the children of a node, and over the roots: the marked trees and the
seqs that it prunes. Attempts and places, which it reads, do not change meanwhile. -/
def mark (dooms : PrefixInfo → Bool) : Forest → Forest × List ℕ
  | .nil => (.nil, [])
  | .cons x children rest =>
    let (rest', prunedRest) := mark dooms rest
    if children.isEmpty then
      if dooms x then (.cons { x with dead := true } children rest', x.seq :: prunedRest)
      else (.cons x children rest', prunedRest)
    else
      let (children', pruned) := mark dooms children
      (.cons x children' rest', pruned ++ prunedRest)

def markDeadLeaves (roots : Forest) (events : List TrajectoryEvent) : Forest × List ℕ :=
  mark (abandoned roots (failedAttempts events)) roots

def grow (events : List TrajectoryEvent) : Building := (calls events).foldl Building.add {}

def buildPrefixTree (events : List TrajectoryEvent) (pruneDead : Bool) : PrefixTree :=
  let roots := (grow events).roots
  let (marked, pruned) := if pruneDead then markDeadLeaves roots events else (roots, [])
  { roots := marked
    eventCount := (calls events).length
    keptLeafSeqs := leafSeqs marked
    prunedLeafSeqs := pruned }

/-- The parent that `walk` finds is above the node; without one the node is a root. -/
theorem walk_spec (x : PrefixInfo) (parent : Option PrefixNode) (f : Forest) :
    (x ∉ f.labels → walk x parent f = none) ∧
    (x ∈ f.labels → (walk x parent f = parent ∧ x ∈ f.roots) ∨
      ∃ n ∈ f.nodes, walk x parent f = some n ∧ x ∈ n.children.roots) := by
  induction f generalizing parent with
  | nil => exact ⟨fun _ => rfl, fun h => absurd h List.not_mem_nil⟩
  | cons y children rest ihc ihr =>
    obtain ⟨hcAbsent, hcFound⟩ := ihc (some ⟨y, children⟩)
    obtain ⟨hrAbsent, hrFound⟩ := ihr parent
    rw [OrderedForest.labels_cons]
    by_cases hy : y = x
    · refine ⟨fun h => absurd (List.mem_cons.mpr (Or.inl hy.symm)) h, fun _ => Or.inl ⟨?_, ?_⟩⟩
      · simp only [walk, if_pos hy]
      · exact List.mem_cons.mpr (Or.inl hy.symm)
    · simp only [walk, if_neg hy, List.mem_cons, List.mem_append, OrderedForest.roots,
        OrderedForest.nodes]
      constructor
      · intro h
        rw [hcAbsent fun hx => h (Or.inr (Or.inl hx))]
        exact hrAbsent fun hx => h (Or.inr (Or.inr hx))
      · intro h
        by_cases hx : x ∈ children.labels
        · -- Below this node the search cannot come back empty.
          rcases hcFound hx with ⟨hwalk, hroot⟩ | ⟨n, hn, hwalk, hroot⟩
          · exact Or.inr ⟨_, Or.inl rfl, by rw [hwalk], hroot⟩
          · exact Or.inr ⟨n, Or.inr (Or.inl hn), by rw [hwalk], hroot⟩
        · have hrest : x ∈ rest.labels := by
            rcases h with h | h | h
            · exact absurd h.symm hy
            · exact absurd h hx
            · exact h
          rw [hcAbsent hx]
          rcases hrFound hrest with ⟨hwalk, hroot⟩ | ⟨n, hn, hwalk, hroot⟩
          · exact Or.inl ⟨hwalk, Or.inr hroot⟩
          · exact Or.inr ⟨n, Or.inr (Or.inr hn), hwalk, hroot⟩

/-- The edge of a node is from the parent that is found. -/
theorem parentOf_edge {x : PrefixInfo} {f : Forest} (h : x ∈ f.labels) :
    ((parentOf x f).map OrderedForest.Node.label, x) ∈ f.edges none := by
  rcases (walk_spec x none f).2 h with ⟨hwalk, hroot⟩ | ⟨n, hn, hwalk, hroot⟩
  · have hparent : parentOf x f = none := hwalk
    rw [hparent]
    exact OrderedForest.mem_edges_of_mem_roots hroot
  · have hparent : parentOf x f = some n := hwalk
    rw [hparent]
    exact OrderedForest.mem_edges_iff.mpr (Or.inr ⟨n, hn, rfl, hroot⟩)

/-- Where labels are unique, the siblings are what hangs under the same parent. -/
theorem mem_siblings_iff {x y : PrefixInfo} {f : Forest} (hunique : f.labels.Nodup)
    (h : x ∈ f.labels) :
    y ∈ siblings x f ↔ ((parentOf x f).map OrderedForest.Node.label, y) ∈ f.edges none := by
  unfold siblings
  rcases (walk_spec x none f).2 h with ⟨hwalk, -⟩ | ⟨n, hn, hwalk, -⟩
  · have hparent : parentOf x f = none := hwalk
    rw [hparent]
    exact OrderedForest.mem_roots_iff
  · have hparent : parentOf x f = some n := hwalk
    rw [hparent]
    exact OrderedForest.mem_children_iff hunique hn

/-! The tree that `build_prefix_tree` grows is the log of its calls, each under its parent. -/

open Backtrack (Placed lastAt goesBack)

abbrev Edges := List (Option PrefixInfo × PrefixInfo)

/-- The loop has placed the calls of `E`, in this order. -/
structure Grown (b : Building) (E : Edges) : Prop where
  placed : Placed PrefixInfo.node PrefixInfo.attemptNo E
  edges : List.Perm (b.roots.edges none) E
  byNode : ∀ node, b.byNode node = (E.map Prod.snd).filter fun x => x.node = node
  last : b.parentStack.getLast? = (E.map Prod.snd).getLast?
  objects : b.objects = E.length
  bounded : ∀ x ∈ E.map Prod.snd, x.object < b.objects
  alive : ∀ x ∈ E.map Prod.snd, x.dead = false

/-- A node that is not in the tree yet. -/
structure Building.New (b : Building) (x : PrefixInfo) : Prop where
  object : x.object = b.objects
  alive : x.dead = false

namespace Grown

variable {b : Building} {E : Edges}

theorem labels (h : Grown b E) : List.Perm b.roots.labels (E.map Prod.snd) := by
  rw [← OrderedForest.edges_labels none b.roots]
  exact h.edges.map Prod.snd

theorem labels_nodup (h : Grown b E) : b.roots.labels.Nodup :=
  h.labels.nodup_iff.mpr (Backtrack.nodup_of_placed h.placed)

theorem mem_edges (h : Grown b E) {e : Option PrefixInfo × PrefixInfo} :
    e ∈ b.roots.edges none ↔ e ∈ E := h.edges.mem_iff

theorem mem_labels (h : Grown b E) {x : PrefixInfo} :
    x ∈ b.roots.labels ↔ x ∈ E.map Prod.snd := h.labels.mem_iff

/-- Hanging a new node under a node of the tree. -/
theorem hang (h : Grown b E) {p : PrefixInfo} (hp : p ∈ E.map Prod.snd) (x : PrefixInfo) :
    List.Perm ((OrderedForest.appendChild p (.single x) b.roots).edges none)
      (E ++ [(some p, x)]) := by
  have hcount : b.roots.labels.count p = 1 :=
    List.count_eq_one_of_mem h.labels_nodup (h.mem_labels.mpr hp)
  have hedges := OrderedForest.edges_appendChild p x none b.roots
  rw [hcount, List.replicate_one] at hedges
  exact hedges.trans (h.edges.append_right _)

theorem root (h : Grown b E) (x : PrefixInfo) :
    List.Perm ((b.roots.append (.single x)).edges none) (E ++ [(none, x)]) := by
  rw [OrderedForest.edges_append]
  exact h.edges.append_right _

/-- What both branches of the loop share. -/
theorem enter (h : Grown b E) {x : PrefixInfo} {q : Option PrefixInfo} {roots : Forest}
    {stack : List PrefixInfo} (hnew : b.New x)
    (hplaced : Placed PrefixInfo.node PrefixInfo.attemptNo (E ++ [(q, x)]))
    (hedges : List.Perm (roots.edges none) (E ++ [(q, x)]))
    (hlast : stack.getLast? = some x) : Grown (b.enter x roots stack) (E ++ [(q, x)]) := by
  have hobject := hnew.object
  refine ⟨hplaced, hedges, ?_, ?_, ?_, ?_, ?_⟩
  · intro node
    rw [List.map_append, List.filter_append, Building.enter]
    dsimp only
    rw [h.byNode]
    by_cases hnode : node = x.node
    · simp [hnode]
    · simp [hnode, Ne.symm hnode]
  · simpa [Building.enter] using hlast
  · simp [Building.enter, h.objects]
  · intro y hy
    rw [List.map_append] at hy
    rcases List.mem_append.mp hy with hy | hy
    · have hbound := h.bounded y hy
      dsimp only [Building.enter]
      omega
    · rw [List.mem_singleton.mp hy]
      dsimp only [Building.enter]
      omega
  · intro y hy
    rw [List.map_append] at hy
    rcases List.mem_append.mp hy with hy | hy
    · exact h.alive y hy
    · rw [List.mem_singleton.mp hy]
      exact hnew.alive

theorem fresh (h : Grown b E) {x : PrefixInfo} (hnew : b.New x) :
    x ∉ E.map Prod.snd := by
  intro hx
  have hbound := h.bounded x hx
  have hobject := hnew.object
  omega

theorem push (h : Grown b E) {x : PrefixInfo} (hnew : b.New x)
    (honward : goesBack PrefixInfo.node PrefixInfo.attemptNo (E.map Prod.snd) x = false) :
    Grown (b.push x) (E ++ [((E.map Prod.snd).getLast?, x)]) := by
  refine h.enter hnew (.under h.placed (h.fresh hnew) honward) ?_ (by simp)
  rw [h.last]
  cases hlast : (E.map Prod.snd).getLast? with
  | none => exact h.root x
  | some p => exact h.hang (List.mem_of_getLast? hlast) x

theorem retry (h : Grown b E) {previous x : PrefixInfo} (hnew : b.New x)
    (hlast : lastAt PrefixInfo.node (E.map Prod.snd) x.node = some previous)
    (hlater : previous.attemptNo < x.attemptNo) :
    ∃ q, Grown (b.retry previous x) (E ++ [(q, x)]) := by
  have hmem : previous ∈ E.map Prod.snd := by
    obtain ⟨-, before, after, hsplit, -⟩ := Backtrack.lastAt_split hlast
    rw [hsplit]
    simp
  have hparent := h.mem_edges.mp (parentOf_edge (h.mem_labels.mpr hmem))
  refine ⟨(parentOf previous b.roots).map OrderedForest.Node.label, ?_⟩
  refine h.enter hnew (.beside h.placed (h.fresh hnew) hlast hlater hparent) ?_ rfl
  cases hfound : parentOf previous b.roots with
  | none => exact h.root x
  | some n =>
    rw [hfound] at hparent
    -- A parent is a node of the tree itself.
    obtain ⟨before, c, after, hsplit, -⟩ := Backtrack.next_of_child h.placed hparent
    apply h.hang
    rw [hsplit]
    simp

theorem add (h : Grown b E) (event : TrajectoryEvent) :
    ∃ q, Grown (b.add event) (E ++ [(q, prefixInfo b.objects event)]) := by
  have hlastAt : (b.byNode event.node).getLast? =
      lastAt PrefixInfo.node (E.map Prod.snd) event.node := by
    rw [h.byNode]
    rfl
  unfold Building.add
  dsimp only
  rw [hlastAt]
  cases hlast : lastAt PrefixInfo.node (E.map Prod.snd) event.node with
  | none =>
    refine ⟨_, h.push ⟨rfl, rfl⟩ ?_⟩
    simp [goesBack, prefixInfo, hlast]
  | some previous =>
    by_cases hlater : previous.attemptNo < event.attemptNo
    · simp only [if_pos hlater]
      exact h.retry ⟨rfl, rfl⟩ hlast hlater
    · simp only [if_neg hlater]
      refine ⟨_, h.push ⟨rfl, rfl⟩ ?_⟩
      simpa [goesBack, prefixInfo, hlast] using hlater

end Grown

theorem call_prefixInfo (object : ℕ) (event : TrajectoryEvent) :
    (prefixInfo object event).call = event := rfl

/-- The loop places every call, in the order of the log. -/
theorem grown_fold {b : Building} {E : Edges} (h : Grown b E) (events : List TrajectoryEvent) :
    ∃ E', Grown (events.foldl Building.add b) E' ∧
      E'.map (fun e => e.2.call) = E.map (fun e => e.2.call) ++ events := by
  induction events generalizing b E with
  | nil => exact ⟨E, h, by simp⟩
  | cons event events ih =>
    obtain ⟨q, hq⟩ := h.add event
    obtain ⟨E', hE', hcalls⟩ := ih hq
    refine ⟨E', hE', ?_⟩
    rw [hcalls]
    simp [call_prefixInfo]

/-- The whole log is placed. -/
structure Logged (events : List TrajectoryEvent) (E : Edges) : Prop where
  grown : Grown (grow events) E
  calls : E.map (fun e => e.2.call) = calls events

theorem exists_logged (events : List TrajectoryEvent) : ∃ E, Logged events E := by
  have hstart : Grown {} [] := by
    refine ⟨.nil, List.Perm.nil, fun _ => rfl, rfl, rfl, fun x hx => ?_, fun x hx => ?_⟩
    · cases hx
    · cases hx
  obtain ⟨E, hE, hcalls⟩ := grown_fold hstart (calls events)
  exact ⟨E, hE, hcalls⟩

end Recertia.Trajectory
