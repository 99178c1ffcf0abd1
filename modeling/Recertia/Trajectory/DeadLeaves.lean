import Recertia.Trajectory.PrefixTree

/-! Which leaves `build_prefix_tree` prunes: those whose graph node is entered next by a later
attempt, where `_mark_dead_leaves` asks for a later attempt anywhere. -/
namespace Recertia.Trajectory

open OrderedForest (edges)
open Backtrack (Retried EndsBranch lastAt)

/-- The calls have a node each, a later attempt of a graph node lies beside the previous one, and
every leaf is either kept or pruned. -/
structure PrefixTree.Keeps (events : List TrajectoryEvent) (tree : PrefixTree) : Prop where
  nodes : List.Perm (tree.roots.labels.map PrefixInfo.call) (calls events)
  retries : ∀ before a mid b after, calls events = before ++ a :: mid ++ b :: after →
    b.node = a.node → (∀ c ∈ mid, c.node ≠ a.node) → a.attemptNo < b.attemptNo →
      ∃ parent x y, (parent, x) ∈ edges none tree.roots ∧ (parent, y) ∈ edges none tree.roots ∧
        x.call = a ∧ y.call = b
  leaves : List.Perm (tree.keptLeafSeqs ++ tree.prunedLeafSeqs)
    (tree.roots.leaves.map PrefixInfo.seq)
  apart : (tree.keptLeafSeqs ++ tree.prunedLeafSeqs).Nodup

/-- A leaf is kept exactly if its attempt did not fail or the tree has no later attempt. -/
def PrefixTree.PrunesDeadEnds (events : List TrajectoryEvent) (tree : PrefixTree) : Prop :=
  ∀ x ∈ tree.roots.leaves, x.seq ∈ tree.keptLeafSeqs ↔
    (x.attemptNo ∉ failedAttempts events ∨ ¬ ∃ y ∈ tree.roots.labels, x.attemptNo < y.attemptNo)

/-- The tree is complete with and without pruning, and the pruned leaves are the dead ends. -/
def PrefixTreeExact (events : List TrajectoryEvent) : Prop :=
  (∀ pruneDead, (buildPrefixTree events pruneDead).Keeps events) ∧
    (buildPrefixTree events true).PrunesDeadEnds events

def Increasing (events : List TrajectoryEvent) : Prop :=
  events.Pairwise fun a b => a.seq < b.seq

/-- A call of a failed attempt after which the log of calls ends, or goes back to a graph node for
a later attempt, is followed at its own graph node by a later attempt, if there is a later attempt
at all. -/
def AbandonedCallsRetried (events : List TrajectoryEvent) : Prop :=
  ∀ e ∈ calls events, EndsBranch TrajectoryEvent.node TrajectoryEvent.attemptNo (calls events) e →
    e.attemptNo ∈ failedAttempts events → (∃ c ∈ calls events, e.attemptNo < c.attemptNo) →
      Retried TrajectoryEvent.node TrajectoryEvent.attemptNo (calls events) e

/-- What `mark` does to a leaf. -/
def flagged (dooms : PrefixInfo → Bool) (x : PrefixInfo) : PrefixInfo :=
  if dooms x then { x with dead := true } else x

theorem flagged_call (dooms : PrefixInfo → Bool) (x : PrefixInfo) :
    (flagged dooms x).call = x.call := by
  unfold flagged
  split
  · rfl
  · rfl

theorem flagged_seq (dooms : PrefixInfo → Bool) (x : PrefixInfo) :
    (flagged dooms x).seq = x.seq :=
  congrArg TrajectoryEvent.seq (flagged_call dooms x)

theorem flagged_attemptNo (dooms : PrefixInfo → Bool) (x : PrefixInfo) :
    (flagged dooms x).attemptNo = x.attemptNo :=
  congrArg TrajectoryEvent.attemptNo (flagged_call dooms x)

theorem mark_cons (dooms : PrefixInfo → Bool) (x : PrefixInfo) (children rest : Forest) :
    mark dooms (.cons x children rest) =
      (.cons (if children.isEmpty then flagged dooms x else x) (mark dooms children).1
          (mark dooms rest).1,
        (if children.isEmpty then (if dooms x then [x.seq] else []) else (mark dooms children).2) ++
          (mark dooms rest).2) := by
  unfold flagged
  rw [mark]
  by_cases hempty : children.isEmpty
  · obtain rfl := OrderedForest.isEmpty_iff.mp hempty
    by_cases hdooms : dooms x
    · simp [hempty, hdooms, mark]
    · simp [hempty, hdooms, mark]
  · simp [hempty]

theorem isEmpty_mark (dooms : PrefixInfo → Bool) (f : Forest) :
    (mark dooms f).1.isEmpty = f.isEmpty := by
  cases f with
  | nil => rfl
  | cons x children rest =>
    rw [mark_cons]
    rfl

theorem mark_nil (dooms : PrefixInfo → Bool) : mark dooms .nil = (.nil, []) := rfl

theorem leaves_mark (dooms : PrefixInfo → Bool) (f : Forest) :
    (mark dooms f).1.leaves = f.leaves.map (flagged dooms) := by
  induction f with
  | nil => rfl
  | cons x children rest ihc ihr =>
    rw [mark_cons]
    simp only [OrderedForest.leaves, isEmpty_mark, ihc, ihr, List.map_append]
    by_cases hempty : children.isEmpty
    · simp [hempty]
    · simp [hempty]

theorem pruned_mark (dooms : PrefixInfo → Bool) (f : Forest) :
    (mark dooms f).2 = (f.leaves.filter dooms).map PrefixInfo.seq := by
  induction f with
  | nil => rfl
  | cons x children rest ihc ihr =>
    rw [mark_cons]
    simp only [OrderedForest.leaves, ihc, ihr, List.filter_append, List.map_append]
    by_cases hempty : children.isEmpty
    · by_cases hdooms : dooms x
      · simp [hempty, hdooms]
      · simp [hempty, hdooms]
    · simp [hempty]

/-- Marking leaves every call in its place. -/
theorem edges_mark (dooms : PrefixInfo → Bool) (q : Option PrefixInfo) (f : Forest) :
    (edges q (mark dooms f).1).map (fun e => (e.1, e.2.call)) =
      (edges q f).map fun e => (e.1, e.2.call) := by
  induction f generalizing q with
  | nil => rfl
  | cons x children rest ihc ihr =>
    rw [mark_cons]
    simp only [edges, List.map_cons, List.map_append, ihr]
    by_cases hempty : children.isEmpty
    · obtain rfl := OrderedForest.isEmpty_iff.mp hempty
      simp [hempty, flagged_call, mark_nil, edges]
    · simp [hempty, ihc]

theorem leafSeqs_eq (f : Forest) :
    leafSeqs f = (f.leaves.filter fun x => !x.dead).map PrefixInfo.seq := by
  induction f with
  | nil => rfl
  | cons x children rest ihc ihr =>
    simp only [leafSeqs, OrderedForest.leaves, ihc, ihr, List.filter_append, List.map_append]
    by_cases hempty : children.isEmpty
    · by_cases hdead : x.dead
      · simp [hempty, hdead]
      · simp [hempty, hdead]
    · simp [hempty]

/-- What is kept are the leaves that are not doomed. -/
theorem kept_mark {dooms : PrefixInfo → Bool} {f : Forest}
    (halive : ∀ x ∈ f.leaves, x.dead = false) :
    leafSeqs (mark dooms f).1 = (f.leaves.filter fun x => !dooms x).map PrefixInfo.seq := by
  rw [leafSeqs_eq, leaves_mark, List.filter_map, List.map_map]
  have hseq : PrefixInfo.seq ∘ flagged dooms = PrefixInfo.seq := by
    funext x
    exact congrArg TrajectoryEvent.seq (flagged_call dooms x)
  rw [hseq]
  congr 1
  apply List.filter_congr
  intro x hx
  have hdead := halive x hx
  by_cases hdooms : dooms x
  · simp [flagged, hdooms]
  · simp [flagged, hdooms, hdead]

theorem mark_none (f : Forest) : mark (fun _ => false) f = (f, []) := by
  induction f with
  | nil => rfl
  | cons x children rest ihc ihr =>
    rw [mark_cons, ihc, ihr]
    simp [flagged]

/-- The leaves that a build dooms. -/
def doomed (events : List TrajectoryEvent) (pruneDead : Bool) (x : PrefixInfo) : Bool :=
  pruneDead && abandoned (grow events).roots (failedAttempts events) x

theorem buildPrefixTree_eq (events : List TrajectoryEvent) (pruneDead : Bool) :
    buildPrefixTree events pruneDead =
      { roots := (mark (doomed events pruneDead) (grow events).roots).1
        eventCount := (calls events).length
        keptLeafSeqs := leafSeqs (mark (doomed events pruneDead) (grow events).roots).1
        prunedLeafSeqs := (mark (doomed events pruneDead) (grow events).roots).2 } := by
  unfold buildPrefixTree doomed
  cases pruneDead with
  | false =>
    simp only [Bool.false_and, mark_none]
    rfl
  | true =>
    simp only [Bool.true_and]
    rfl

section Log

variable {events : List TrajectoryEvent} {E : Edges}

theorem labels_mark_call (dooms : PrefixInfo → Bool) (f : Forest) :
    (mark dooms f).1.labels.map PrefixInfo.call = f.labels.map PrefixInfo.call := by
  have hedges := congrArg (List.map Prod.snd) (edges_mark dooms none f)
  rw [List.map_map, List.map_map] at hedges
  rw [← OrderedForest.edges_labels none, ← OrderedForest.edges_labels none f, List.map_map,
    List.map_map]
  exact hedges

theorem calls_nodup (hinc : Increasing events) :
    ((calls events).map TrajectoryEvent.seq).Nodup := by
  have hcalls : (calls events).Pairwise fun a b => a.seq < b.seq :=
    List.Pairwise.sublist List.filter_sublist hinc
  rw [List.Nodup, List.pairwise_map]
  exact hcalls.imp fun hab => Nat.ne_of_lt hab

theorem map_call (h : Logged events E) : (E.map Prod.snd).map PrefixInfo.call = calls events := by
  rw [← h.calls, List.map_map]
  rfl

theorem labels_calls (h : Logged events E) :
    List.Perm ((grow events).roots.labels.map PrefixInfo.call) (calls events) := by
  rw [← map_call h]
  exact h.grown.labels.map _

theorem seqs_nodup (h : Logged events E) (hinc : Increasing events) :
    ((grow events).roots.labels.map PrefixInfo.seq).Nodup := by
  have hperm := (labels_calls h).map TrajectoryEvent.seq
  rw [List.map_map] at hperm
  exact hperm.nodup_iff.mpr (calls_nodup hinc)

/-- A leaf is a call after which the log ends or goes back. -/
theorem mem_leaves_grown (h : Logged events E) {x : PrefixInfo} :
    x ∈ (grow events).roots.leaves ↔ x ∈ E.map Prod.snd ∧
      EndsBranch PrefixInfo.node PrefixInfo.attemptNo (E.map Prod.snd) x := by
  rw [OrderedForest.mem_leaves_iff_edges h.grown.labels_nodup, h.grown.mem_labels,
    ← Backtrack.childless_iff h.grown.placed]
  simp only [h.grown.mem_edges]

theorem abandoned_iff (h : Logged events E) {x : PrefixInfo}
    (hx : x ∈ (grow events).roots.labels) (failed : List ℕ) :
    abandoned (grow events).roots failed x = true ↔ x.attemptNo ∈ failed ∧
      Retried PrefixInfo.node PrefixInfo.attemptNo (E.map Prod.snd) x := by
  have hedge := parentOf_edge hx
  rw [← Backtrack.higher_sibling_iff h.grown.placed (h.grown.mem_edges.mp hedge)]
  simp only [abandoned, Bool.and_eq_true, List.contains_iff_mem, List.any_eq_true,
    decide_eq_true_eq, mem_siblings_iff h.grown.labels_nodup hx, h.grown.mem_edges]

theorem keeps_of_log (h : Logged events E) (hinc : Increasing events) (pruneDead : Bool) :
    (buildPrefixTree events pruneDead).Keeps events := by
  rw [buildPrefixTree_eq]
  set dooms := doomed events pruneDead
  have hseqs : (mark dooms (grow events).roots).1.leaves.map PrefixInfo.seq =
      (grow events).roots.leaves.map PrefixInfo.seq := by
    rw [leaves_mark, List.map_map]
    apply List.map_congr_left
    intro x _
    exact flagged_seq dooms x
  have hleaves : List.Perm
      (leafSeqs (mark dooms (grow events).roots).1 ++ (mark dooms (grow events).roots).2)
      ((mark dooms (grow events).roots).1.leaves.map PrefixInfo.seq) := by
    rw [hseqs, kept_mark, pruned_mark, ← List.map_append]
    · apply List.Perm.map
      exact List.perm_append_comm.trans (List.filter_append_perm dooms _)
    · intro x hx
      apply h.grown.alive
      exact h.grown.mem_labels.mp ((OrderedForest.leaves_sublist _).subset hx)
  refine ⟨?_, ?_, hleaves, ?_⟩
  · dsimp only
    rw [labels_mark_call]
    exact labels_calls h
  · intro before a mid b after hsplit hnode hmid hlater
    -- The calls of the log are the labels of the tree in the order of their creation.
    rw [← map_call h] at hsplit
    obtain ⟨front, rest, hfront, hbefore, hrest⟩ := List.map_eq_append_iff.mp hsplit
    obtain ⟨before', front', rfl, -, hfront'⟩ := List.map_eq_append_iff.mp hbefore
    obtain ⟨x, mid', rfl, rfl, rfl⟩ := List.map_eq_cons_iff.mp hfront'
    obtain ⟨y, after', rfl, rfl, -⟩ := List.map_eq_cons_iff.mp hrest
    have hlast : lastAt PrefixInfo.node (before' ++ x :: mid') y.node = some x := by
      have hsame : y.node = x.node := hnode
      rw [hsame]
      apply Backtrack.lastAt_of_split
      intro c hc
      exact hmid c.call (List.mem_map_of_mem hc)
    obtain ⟨q, hx, hy⟩ := Backtrack.beside_of_last h.grown.placed hfront hlast hlater
    have hmarked : ∀ z, (q, z) ∈ E →
        ∃ z', (q, z') ∈ edges none (mark dooms (grow events).roots).1 ∧ z'.call = z.call := by
      intro z hz
      have hmem := List.mem_map_of_mem (f := fun e : Option PrefixInfo × PrefixInfo =>
        (e.1, e.2.call)) (h.grown.mem_edges.mpr hz)
      rw [← edges_mark dooms] at hmem
      obtain ⟨⟨r, z'⟩, hz', heq⟩ := List.mem_map.mp hmem
      obtain ⟨rfl, hcall⟩ := Prod.mk.inj heq
      exact ⟨z', hz', hcall⟩
    obtain ⟨x', hx', hxcall⟩ := hmarked x hx
    obtain ⟨y', hy', hycall⟩ := hmarked y hy
    exact ⟨q, x', y', hx', hy', hxcall, hycall⟩
  · apply hleaves.nodup_iff.mpr
    rw [hseqs]
    exact (seqs_nodup h hinc).sublist ((OrderedForest.leaves_sublist _).map _)

/-- A leaf is kept unless its attempt failed and its graph node is entered next by a later one. -/
theorem kept_iff (h : Logged events E) (hinc : Increasing events) {x : PrefixInfo}
    (hx : x ∈ (grow events).roots.leaves) :
    x.seq ∈ (buildPrefixTree events true).keptLeafSeqs ↔
      ¬ (x.attemptNo ∈ failedAttempts events ∧
        Retried PrefixInfo.node PrefixInfo.attemptNo (E.map Prod.snd) x) := by
  have hlabel : ∀ y ∈ (grow events).roots.leaves, y ∈ (grow events).roots.labels :=
    fun y hy => (OrderedForest.leaves_sublist _).subset hy
  rw [← abandoned_iff h (hlabel x hx), buildPrefixTree_eq]
  dsimp only
  rw [kept_mark fun y hy => h.grown.alive y (h.grown.mem_labels.mp (hlabel y hy))]
  constructor
  · intro hkept habandoned
    obtain ⟨y, hy, hseq⟩ := List.mem_map.mp hkept
    obtain ⟨hleaf, halive⟩ := List.mem_filter.mp hy
    obtain rfl : y = x := List.inj_on_of_nodup_map (seqs_nodup h hinc) (hlabel y hleaf)
      (hlabel x hx) hseq
    simp [doomed, habandoned] at halive
  · intro hspared
    apply List.mem_map_of_mem
    apply List.mem_filter.mpr
    refine ⟨hx, ?_⟩
    simpa [doomed] using hspared

theorem retried_call_iff (h : Logged events E) (hinc : Increasing events) {x : PrefixInfo}
    (hx : x ∈ E.map Prod.snd) :
    Retried TrajectoryEvent.node TrajectoryEvent.attemptNo (calls events) x.call ↔
      Retried PrefixInfo.node PrefixInfo.attemptNo (E.map Prod.snd) x := by
  have hnodup := (calls_nodup hinc).of_map
  rw [← map_call h] at hnodup ⊢
  exact Backtrack.retried_map_iff hnodup hx

theorem endsBranch_call_iff (h : Logged events E) (hinc : Increasing events) {x : PrefixInfo}
    (hx : x ∈ E.map Prod.snd) :
    EndsBranch TrajectoryEvent.node TrajectoryEvent.attemptNo (calls events) x.call ↔
      EndsBranch PrefixInfo.node PrefixInfo.attemptNo (E.map Prod.snd) x := by
  have hnodup := (calls_nodup hinc).of_map
  rw [← map_call h] at hnodup ⊢
  exact Backtrack.endsBranch_map_iff hnodup hx

/-- A later attempt in the tree is a later attempt among the calls. -/
theorem later_iff (h : Logged events E) (pruneDead : Bool) (n : ℕ) :
    (∃ y ∈ (buildPrefixTree events pruneDead).roots.labels, n < y.attemptNo) ↔
      ∃ c ∈ calls events, n < c.attemptNo := by
  have hperm := labels_calls h
  rw [← labels_mark_call (doomed events pruneDead)] at hperm
  rw [buildPrefixTree_eq]
  constructor
  · rintro ⟨y, hy, hlater⟩
    exact ⟨y.call, hperm.mem_iff.mp (List.mem_map_of_mem hy), hlater⟩
  · rintro ⟨c, hc, hlater⟩
    obtain ⟨y, hy, rfl⟩ := List.mem_map.mp (hperm.mem_iff.mpr hc)
    exact ⟨y, hy, hlater⟩

theorem later_of_retried {e : TrajectoryEvent}
    (h : Retried TrajectoryEvent.node TrajectoryEvent.attemptNo (calls events) e) :
    ∃ c ∈ calls events, e.attemptNo < c.attemptNo := by
  obtain ⟨before, after, c, hsplit, hfind, hlater⟩ := h
  refine ⟨c, ?_, hlater⟩
  rw [hsplit]
  exact List.mem_append_right _ (List.mem_cons_of_mem _ (List.mem_of_find?_eq_some hfind))

theorem prunesDeadEnds_iff (h : Logged events E) (hinc : Increasing events) :
    (buildPrefixTree events true).PrunesDeadEnds events ↔ AbandonedCallsRetried events := by
  constructor
  · intro hprunes e he hends hfailed hlater
    rw [← map_call h] at he
    obtain ⟨x, hx, rfl⟩ := List.mem_map.mp he
    have hleaf : x ∈ (grow events).roots.leaves :=
      (mem_leaves_grown h).mpr ⟨hx, (endsBranch_call_iff h hinc hx).mp hends⟩
    have hmarked : flagged (doomed events true) x ∈ (buildPrefixTree events true).roots.leaves := by
      rw [buildPrefixTree_eq, leaves_mark]
      exact List.mem_map_of_mem hleaf
    have hkept := hprunes _ hmarked
    rw [later_iff h, flagged_seq, flagged_attemptNo, kept_iff h hinc hleaf] at hkept
    rw [retried_call_iff h hinc hx]
    by_contra hnot
    rcases hkept.mp fun hboth => hnot hboth.2 with hspared | hspared
    · exact hspared hfailed
    · exact hspared hlater
  · intro hretried x' hx'
    rw [buildPrefixTree_eq, leaves_mark] at hx'
    obtain ⟨x, hleaf, rfl⟩ := List.mem_map.mp hx'
    obtain ⟨hx, hends⟩ := (mem_leaves_grown h).mp hleaf
    rw [later_iff h, flagged_seq, flagged_attemptNo, kept_iff h hinc hleaf,
      ← retried_call_iff h hinc hx]
    constructor
    · intro hspared
      by_contra hboth
      obtain ⟨hfailed, hlater⟩ := not_or.mp hboth
      have hmem : x.call ∈ calls events := by
        rw [← map_call h]
        exact List.mem_map_of_mem hx
      exact hspared ⟨not_not.mp hfailed, hretried x.call hmem
        ((endsBranch_call_iff h hinc hx).mpr hends) (not_not.mp hfailed) (not_not.mp hlater)⟩
    · rintro (hspared | hspared) ⟨hfailed, hagain⟩
      · exact hspared hfailed
      · exact hspared (later_of_retried hagain)

end Log

/-- The prefix tree is exact precisely if every call that a failed attempt broke off at is followed
at its own graph node by a later attempt. -/
theorem prefixTree_exact_iff {events : List TrajectoryEvent} (hinc : Increasing events) :
    PrefixTreeExact events ↔ AbandonedCallsRetried events := by
  obtain ⟨E, h⟩ := exists_logged events
  rw [← prunesDeadEnds_iff h hinc]
  constructor
  · intro hexact
    exact hexact.2
  · intro hprunes
    exact ⟨fun pruneDead => keeps_of_log h hinc pruneDead, hprunes⟩

/-- A plan, a solve that fails at its first attempt, and the solve again. -/
def solvedAgain : List TrajectoryEvent :=
  [{ seq := 0, node := "plan", attemptNo := 0, eventKind := .planChoice },
    { seq := 1, node := "solve", attemptNo := 1, eventKind := .stepStarted },
    { seq := 2, node := "classify_failure", attemptNo := 1, eventKind := .failureClassified },
    { seq := 3, node := "solve", attemptNo := 2, eventKind := .stepStarted },
    { seq := 4, node := "finalize", attemptNo := 2, eventKind := .terminal }]

theorem prefixTree_exact_solvedAgain : PrefixTreeExact solvedAgain := by
  have hinc : Increasing solvedAgain := by
    unfold Increasing
    decide
  apply (prefixTree_exact_iff hinc).mpr
  intro e he _ hfailed _
  have hfailed : e.attemptNo = 1 := List.mem_singleton.mp hfailed
  rcases List.mem_cons.mp he with rfl | he
  · cases hfailed
  · rcases List.mem_cons.mp he with rfl | he
    · exact ⟨[{ seq := 0, node := "plan", attemptNo := 0, eventKind := .planChoice }],
        [{ seq := 3, node := "solve", attemptNo := 2, eventKind := .stepStarted }],
        { seq := 3, node := "solve", attemptNo := 2, eventKind := .stepStarted }, rfl, rfl,
        by decide⟩
    · obtain rfl := List.mem_singleton.mp he
      cases hfailed

/-- Two failed attempts: after the first the plan is made again, after the second it is not. -/
def plannedAgain : List TrajectoryEvent :=
  [{ seq := 0, node := "plan", attemptNo := 0, eventKind := .planChoice },
    { seq := 1, node := "classify_failure", attemptNo := 1, eventKind := .failureClassified },
    { seq := 2, node := "evolve", attemptNo := 1, eventKind := .evolveDecision },
    { seq := 3, node := "plan", attemptNo := 1, eventKind := .planChoice },
    { seq := 4, node := "classify_failure", attemptNo := 2, eventKind := .failureClassified },
    { seq := 5, node := "evolve", attemptNo := 2, eventKind := .evolveDecision }]

theorem not_prefixTree_exact_plannedAgain :
    Increasing plannedAgain ∧ ¬ PrefixTreeExact plannedAgain := by
  refine ⟨by unfold Increasing; decide, fun h => ?_⟩
  -- The second plan, of the failed attempt 1, is kept beside the decision of attempt 2.
  have hprunes : ¬ (buildPrefixTree plannedAgain true).PrunesDeadEnds plannedAgain := by
    unfold PrefixTree.PrunesDeadEnds
    decide +kernel
  exact hprunes h.2

end Recertia.Trajectory
