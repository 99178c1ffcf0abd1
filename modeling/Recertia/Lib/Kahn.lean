import Mathlib.Data.List.Basic
import Mathlib.Data.List.Nodup
import Mathlib.Data.List.Perm.Subperm
import Mathlib.Tactic.Tauto

/-! Kahn's algorithm on a finite graph given by the dependencies of its nodes. When it visits every
node, whatever is not done yet has a member all of whose dependencies are. -/
namespace Kahn

variable {α : Type*} [DecidableEq α]

/-- The last visited node comes first. -/
structure State (α : Type*) where
  visited : List α
  queue : List α
  indegree : α → Int

variable (nodes : List α) (deps : α → List α)

def successors (node : α) : List α := nodes.filter fun v => node ∈ deps v

def start : State α where
  visited := []
  queue := nodes.filter fun v => ((deps v).length : Int) = 0
  indegree := fun v => (deps v).length

/-- One successor loses a dependency; it is queued with its last one. -/
def relax (s : State α) (next : α) : State α :=
  let left := s.indegree next - 1
  { s with indegree := fun v => if v = next then left else s.indegree v
           queue := if left = 0 then s.queue ++ [next] else s.queue }

def visit (s : State α) (node : α) : State α :=
  (successors nodes deps node).foldl relax
    { s with visited := node :: s.visited, queue := s.queue.dropLast }

/-- `while queue`: the last of the queue is visited. -/
def loop : ℕ → State α → State α
  | 0, s => s
  | fuel + 1, s =>
    match s.queue.getLast? with
    | none => s
    | some node => loop fuel (visit nodes deps s node)

/-- The loop visits no node twice, so it needs no more steps than there are nodes. -/
def order : List α := (loop nodes deps nodes.length (start nodes deps)).visited

/-- Each node stands in front of all that it depends on. -/
def Topological : List α → Prop
  | [] => True
  | v :: older => (∀ d ∈ deps v, d ∈ older) ∧ Topological older

/-- The dependencies of a node that are not visited. -/
def missing (visited : List α) (v : α) : List α := (deps v).filter fun d => d ∉ visited

structure Inv (s : State α) : Prop where
  nodup : (s.queue ++ s.visited).Nodup
  mem : ∀ v ∈ s.queue ++ s.visited, v ∈ nodes
  indegree : ∀ v ∈ nodes, s.indegree v = (missing deps s.visited v).length
  zero : ∀ v ∈ nodes, s.indegree v = 0 → v ∈ s.queue ++ s.visited
  free : ∀ v ∈ s.queue ++ s.visited, missing deps s.visited v = []
  topological : Topological deps s.visited

variable {nodes deps}

theorem missing_eq_nil {visited : List α} {v : α} :
    missing deps visited v = [] ↔ ∀ d ∈ deps v, d ∈ visited := by
  simp only [missing, List.filter_eq_nil_iff, decide_eq_true_eq, not_not]

theorem mem_successors {node v : α} : v ∈ successors nodes deps node ↔ v ∈ nodes ∧ node ∈ deps v := by
  simp only [successors, List.mem_filter, decide_eq_true_eq]

/-- A visit takes the node from the missing dependencies of its successors, and of no other. -/
theorem length_missing_cons {visited : List α} {node v : α} (hdeps : (deps v).Nodup)
    (hnew : node ∉ visited) : (missing deps visited v).length =
      (missing deps (node :: visited) v).length + if node ∈ deps v then 1 else 0 := by
  unfold missing
  generalize deps v = all at hdeps ⊢
  induction all with
  | nil => rfl
  | cons d l ih =>
    obtain ⟨hd, hl⟩ := List.nodup_cons.mp hdeps
    have hrest := ih hl
    by_cases hnode : d = node
    · rw [hnode] at hd
      rw [if_neg hd] at hrest
      rw [List.filter_cons_of_pos (by simpa [hnode] using hnew),
        List.filter_cons_of_neg (by simp [hnode]), if_pos (by simp [hnode]), List.length_cons, hrest]
    · have hmem : node ∈ d :: l ↔ node ∈ l := by simp [Ne.symm hnode]
      simp only [hmem]
      by_cases hvisited : d ∈ visited
      · rw [List.filter_cons_of_neg (by simpa using hvisited),
          List.filter_cons_of_neg (by simp [hvisited]), hrest]
      · rw [List.filter_cons_of_pos (by simpa using hvisited),
          List.filter_cons_of_pos (by simp [hvisited, hnode]), List.length_cons, List.length_cons,
          hrest]
        omega

/-- The loop over the successors of one node. -/
theorem foldl_relax {next : List α} (hnodup : next.Nodup) (s : State α) :
    (next.foldl relax s).visited = s.visited ∧
    (∀ v, (next.foldl relax s).indegree v = s.indegree v - if v ∈ next then 1 else 0) ∧
    (next.foldl relax s).queue = s.queue ++ next.filter fun v => s.indegree v = 1 := by
  induction next generalizing s with
  | nil => simp
  | cons u next ih =>
    obtain ⟨hu, hnext⟩ := List.nodup_cons.mp hnodup
    obtain ⟨hvisited, hindegree, hqueue⟩ := ih hnext (relax s u)
    have hother : ∀ v ∈ next, (relax s u).indegree v = s.indegree v := by
      intro v hv
      have hne : v ≠ u := by
        rintro rfl
        exact hu hv
      exact if_neg hne
    rw [List.foldl_cons]
    refine ⟨hvisited, fun v => ?_, ?_⟩
    · rw [hindegree]
      by_cases hv : v = u
      · rw [hv, if_neg hu, if_pos List.mem_cons_self, Int.sub_zero]
        exact if_pos rfl
      · have hsame : (relax s u).indegree v = s.indegree v := if_neg hv
        simp only [hsame, List.mem_cons, hv, false_or]
    · have hfilter : (next.filter fun v => (relax s u).indegree v = 1) =
          next.filter fun v => s.indegree v = 1 := by
        apply List.filter_congr
        intro v hv
        rw [hother v hv]
      rw [hqueue, hfilter, List.filter_cons]
      by_cases hone : s.indegree u = 1
      · have hlast : s.indegree u - 1 = 0 := by omega
        have hrelaxed : (relax s u).queue = s.queue ++ [u] := if_pos hlast
        rw [hrelaxed, if_pos (decide_eq_true hone), List.append_assoc, List.singleton_append]
      · have hlast : s.indegree u - 1 ≠ 0 := by omega
        have hrelaxed : (relax s u).queue = s.queue := if_neg hlast
        rw [hrelaxed, if_neg (by simpa using hone)]

theorem successors_nodup (hnodes : nodes.Nodup) (node : α) : (successors nodes deps node).Nodup :=
  hnodes.filter _

/-- The nodes that a visit queues: their last missing dependency was the visited one. -/
theorem queued_iff (hdeps : ∀ v ∈ nodes, (deps v).Nodup) {s : State α} (h : Inv nodes deps s)
    {node v : α} (hnew : node ∉ s.visited) :
    (v ∈ successors nodes deps node ∧ s.indegree v = 1) ↔
      v ∈ nodes ∧ node ∈ deps v ∧ missing deps (node :: s.visited) v = [] := by
  rw [mem_successors]
  constructor
  · rintro ⟨⟨hv, hdep⟩, hone⟩
    have hlength := length_missing_cons (hdeps v hv) hnew
    have hcount := h.indegree v hv
    rw [if_pos hdep] at hlength
    exact ⟨hv, hdep, List.eq_nil_of_length_eq_zero (by omega)⟩
  · rintro ⟨hv, hdep, hnone⟩
    have hlength := length_missing_cons (hdeps v hv) hnew
    have hcount := h.indegree v hv
    rw [if_pos hdep, hnone, List.length_nil] at hlength
    exact ⟨⟨hv, hdep⟩, by omega⟩

theorem start_inv (hnodes : nodes.Nodup) : Inv nodes deps (start nodes deps) where
  nodup := by
    rw [start, List.append_nil]
    exact hnodes.filter _
  mem := by
    intro v hv
    rw [start, List.append_nil] at hv
    exact List.mem_of_mem_filter hv
  indegree := by
    intro v _
    have hall : missing deps [] v = deps v := List.filter_eq_self.mpr fun d _ => by simp
    rw [start, hall]
  zero := by
    intro v hv hzero
    rw [start, List.append_nil]
    exact List.mem_filter.mpr ⟨hv, decide_eq_true hzero⟩
  free := by
    intro v hv
    rw [start, List.append_nil] at hv
    have hzero : ((deps v).length : Int) = 0 := of_decide_eq_true (List.mem_filter.mp hv).2
    have hnone : deps v = [] := List.eq_nil_of_length_eq_zero (by omega)
    rw [missing, hnone]
    rfl
  topological := trivial

/-- A visit of the last of the queue. -/
theorem visit_inv (hnodes : nodes.Nodup) (hdeps : ∀ v ∈ nodes, (deps v).Nodup) {s : State α}
    (h : Inv nodes deps s) {node : α} {rest : List α} (hqueue : s.queue = rest ++ [node]) :
    Inv nodes deps (visit nodes deps s node) ∧
      (visit nodes deps s node).visited = node :: s.visited := by
  have hnode : node ∈ s.queue := by
    rw [hqueue]
    exact List.mem_append_right _ (List.mem_singleton_self node)
  have hnew : node ∉ s.visited := fun hv => (List.nodup_append.mp h.nodup).2.2 node hnode node hv rfl
  have hin : node ∈ nodes := h.mem node (List.mem_append_left _ hnode)
  obtain ⟨hvisited, hindegree, hqueue'⟩ := foldl_relax (successors_nodup hnodes node)
    { s with visited := node :: s.visited, queue := s.queue.dropLast }
  change (visit nodes deps s node).visited = _ at hvisited
  change ∀ v, (visit nodes deps s node).indegree v = _ at hindegree
  change (visit nodes deps s node).queue = _ at hqueue'
  dsimp only at hvisited hindegree hqueue'
  rw [hqueue, List.dropLast_concat] at hqueue'
  set queued := (successors nodes deps node).filter fun v => s.indegree v = 1
  have hqueued : ∀ v, v ∈ queued ↔
      v ∈ nodes ∧ node ∈ deps v ∧ missing deps (node :: s.visited) v = [] := by
    intro v
    rw [List.mem_filter, decide_eq_true_eq]
    exact queued_iff hdeps h hnew
  -- What was queued or visited before had nothing missing, so it is not queued again.
  have hfresh : ∀ v ∈ queued, v ∉ s.queue ++ s.visited := by
    intro v hv hold
    have hone : s.indegree v = 1 := of_decide_eq_true (List.mem_filter.mp hv).2
    have hcount := h.indegree v (h.mem v hold)
    rw [h.free v hold, List.length_nil] at hcount
    omega
  have hold : ∀ v, v ∈ s.queue ++ s.visited ↔ v ∈ rest ++ node :: s.visited := by
    intro v
    rw [hqueue, List.append_assoc, List.singleton_append]
  have hall : ∀ v, v ∈ (rest ++ queued) ++ node :: s.visited ↔
      v ∈ s.queue ++ s.visited ∨ v ∈ queued := by
    intro v
    rw [hold]
    simp only [List.mem_append]
    tauto
  refine ⟨⟨?_, ?_, ?_, ?_, ?_, ?_⟩, hvisited⟩
  · have hbefore := h.nodup
    rw [hqueue, List.append_assoc, List.singleton_append] at hbefore
    rw [hqueue', hvisited, List.append_assoc]
    apply (List.perm_append_comm_assoc rest queued (node :: s.visited)).nodup_iff.mpr
    apply List.nodup_append'.mpr
    refine ⟨(successors_nodup hnodes node).filter _, hbefore, fun v hv hmem => ?_⟩
    exact hfresh v hv ((hold v).mpr hmem)
  · intro v hv
    rw [hqueue', hvisited, hall] at hv
    rcases hv with hv | hv
    · exact h.mem v hv
    · exact ((hqueued v).mp hv).1
  · intro v hv
    have hlength := length_missing_cons (hdeps v hv) hnew
    have hcount := h.indegree v hv
    rw [hindegree, hvisited]
    by_cases hdep : node ∈ deps v
    · rw [if_pos (mem_successors.mpr ⟨hv, hdep⟩)]
      rw [if_pos hdep] at hlength
      omega
    · rw [if_neg fun hsucc => hdep (mem_successors.mp hsucc).2]
      rw [if_neg hdep] at hlength
      omega
  · intro v hv hzero
    rw [hindegree] at hzero
    rw [hqueue', hvisited, hall]
    by_cases hsucc : v ∈ successors nodes deps node
    · rw [if_pos hsucc] at hzero
      have hone : s.indegree v = 1 := by omega
      exact Or.inr (List.mem_filter.mpr ⟨hsucc, decide_eq_true hone⟩)
    · rw [if_neg hsucc] at hzero
      exact Or.inl (h.zero v hv (by omega))
  · intro v hv
    rw [hqueue', hvisited, hall] at hv
    rw [hvisited]
    rcases hv with hv | hv
    · apply missing_eq_nil.mpr
      intro d hd
      exact List.mem_cons_of_mem _ (missing_eq_nil.mp (h.free v hv) d hd)
    · exact ((hqueued v).mp hv).2.2
  · rw [hvisited]
    exact ⟨missing_eq_nil.mp (h.free node (List.mem_append_left _ hnode)), h.topological⟩

/-- With a step for every node that is not visited, the loop ends with an empty queue. -/
theorem loop_inv (hnodes : nodes.Nodup) (hdeps : ∀ v ∈ nodes, (deps v).Nodup) {fuel : ℕ}
    {s : State α} (h : Inv nodes deps s) (hfuel : nodes.length ≤ s.visited.length + fuel) :
    Inv nodes deps (loop nodes deps fuel s) ∧ (loop nodes deps fuel s).queue = [] := by
  induction fuel generalizing s with
  | zero =>
    refine ⟨h, List.eq_nil_of_length_eq_zero ?_⟩
    have hlength := (List.subperm_of_subset h.nodup h.mem).length_le
    rw [List.length_append] at hlength
    change s.queue.length = 0
    omega
  | succ fuel ih =>
    unfold loop
    rcases List.eq_nil_or_concat s.queue with hnil | ⟨rest, node, hqueue⟩
    · rw [hnil]
      exact ⟨h, hnil⟩
    · rw [List.concat_eq_append] at hqueue
      rw [hqueue, List.getLast?_concat]
      obtain ⟨hinv, hvisited⟩ := visit_inv hnodes hdeps h hqueue
      apply ih hinv
      rw [hvisited, List.length_cons]
      omega

theorem order_inv (hnodes : nodes.Nodup) (hdeps : ∀ v ∈ nodes, (deps v).Nodup) :
    (order nodes deps).Nodup ∧ (∀ v ∈ order nodes deps, v ∈ nodes) ∧
      Topological deps (order nodes deps) := by
  obtain ⟨h, -⟩ := loop_inv hnodes hdeps (start_inv hnodes) (Nat.le_add_left nodes.length 0)
  refine ⟨(List.nodup_append.mp h.nodup).2.1, fun v hv => ?_, h.topological⟩
  exact h.mem v (List.mem_append_right _ hv)

omit [DecidableEq α] in
/-- In a topological order, the first node that is not done has all its dependencies done. -/
theorem Topological.exists_ready {l : List α} (h : Topological deps l) {done : α → Prop}
    (hleft : ∃ v ∈ l, ¬ done v) : ∃ v ∈ l, ¬ done v ∧ ∀ d ∈ deps v, done d := by
  induction l with
  | nil =>
    obtain ⟨v, hv, -⟩ := hleft
    exact absurd hv List.not_mem_nil
  | cons v older ih =>
    by_cases holder : ∃ u ∈ older, ¬ done u
    · obtain ⟨u, hu, hready⟩ := ih h.2 holder
      exact ⟨u, List.mem_cons_of_mem _ hu, hready⟩
    · -- Everything older is done, so the one that is not is `v`.
      push Not at holder
      obtain ⟨u, hu, hnot⟩ := hleft
      rcases List.mem_cons.mp hu with rfl | hu
      · exact ⟨u, List.mem_cons_self, hnot, fun d hd => holder d (h.1 d hd)⟩
      · exact absurd (holder u hu) hnot

/-- When the algorithm has counted every node, there is always a node to do next. -/
theorem exists_ready (hnodes : nodes.Nodup) (hdeps : ∀ v ∈ nodes, (deps v).Nodup)
    (hcount : (order nodes deps).length = nodes.length) {done : α → Prop}
    (hleft : ∃ v ∈ nodes, ¬ done v) : ∃ v ∈ nodes, ¬ done v ∧ ∀ d ∈ deps v, done d := by
  obtain ⟨hnodup, hmem, htopological⟩ := order_inv hnodes hdeps
  have hperm : (order nodes deps).Perm nodes :=
    (List.subperm_of_subset hnodup hmem).perm_of_length_le (by omega)
  obtain ⟨v, hv, hnot⟩ := hleft
  obtain ⟨u, hu, hready⟩ := htopological.exists_ready ⟨v, hperm.mem_iff.mpr hv, hnot⟩
  exact ⟨u, hperm.mem_iff.mp hu, hready⟩

end Kahn
