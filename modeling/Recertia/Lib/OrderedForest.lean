import Mathlib.Data.List.Basic
import Mathlib.Data.List.Nodup
import Mathlib.Data.List.Perm.Basic

/-! Ordered forests of labelled nodes. A forest is its first tree, by label and children, and the
trees after it. Where no two nodes share a label, a label stands for the node itself. -/

inductive OrderedForest (α : Type*)
  | nil
  | cons (label : α) (children rest : OrderedForest α)
  deriving DecidableEq, Repr

namespace OrderedForest

variable {α : Type*}

/-- A node of a forest with all that is under it. -/
structure Node (α : Type*) where
  label : α
  children : OrderedForest α

def single (label : α) : OrderedForest α := cons label nil nil

def isEmpty : OrderedForest α → Bool
  | nil => true
  | cons _ _ _ => false

def append : OrderedForest α → OrderedForest α → OrderedForest α
  | nil, g => g
  | cons l cs rest, g => cons l cs (append rest g)

def roots : OrderedForest α → List α
  | nil => []
  | cons l _ rest => l :: roots rest

/-- The nodes in preorder. -/
def nodes : OrderedForest α → List (Node α)
  | nil => []
  | cons l cs rest => ⟨l, cs⟩ :: (nodes cs ++ nodes rest)

def labels (f : OrderedForest α) : List α := f.nodes.map Node.label

/-- Each node with its parent, where the trees themselves hang under `parent`. -/
def edges (parent : Option α) : OrderedForest α → List (Option α × α)
  | nil => []
  | cons l cs rest => (parent, l) :: (edges (some l) cs ++ edges parent rest)

def leaves : OrderedForest α → List α
  | nil => []
  | cons l cs rest => (if cs.isEmpty then [l] else leaves cs) ++ leaves rest

/-- Appends the trees of `g` to the children of the node `p`. -/
def appendChild [DecidableEq α] (p : α) (g : OrderedForest α) : OrderedForest α → OrderedForest α
  | nil => nil
  | cons l cs rest =>
    cons l (if l = p then (appendChild p g cs).append g else appendChild p g cs)
      (appendChild p g rest)

theorem isEmpty_iff {f : OrderedForest α} : f.isEmpty = true ↔ f = nil := by
  cases f with
  | nil => simp [isEmpty]
  | cons l cs rest => simp [isEmpty]

@[simp] theorem labels_nil : (nil : OrderedForest α).labels = [] := rfl

@[simp] theorem labels_cons (l : α) (cs rest : OrderedForest α) :
    (cons l cs rest).labels = l :: (cs.labels ++ rest.labels) := by
  simp [labels, nodes]

theorem edges_append (q : Option α) (f g : OrderedForest α) :
    edges q (f.append g) = edges q f ++ edges q g := by
  induction f with
  | nil => rfl
  | cons l cs rest _ ih => simp [append, edges, ih]

theorem edges_labels (q : Option α) (f : OrderedForest α) :
    (edges q f).map Prod.snd = f.labels := by
  induction f generalizing q with
  | nil => rfl
  | cons l cs rest ihc ihr => simp [edges, ihc, ihr]

theorem edges_single (q : Option α) (x : α) : edges q (single x) = [(q, x)] := rfl

/-- A new child adds one edge for every node that it is appended to. -/
theorem edges_appendChild [DecidableEq α] (p x : α) (q : Option α) (f : OrderedForest α) :
    List.Perm (edges q (appendChild p (single x) f))
      (edges q f ++ List.replicate (f.labels.count p) (some p, x)) := by
  induction f generalizing q with
  | nil => simp [appendChild, edges]
  | cons l cs rest ihc ihr =>
    have hc := ihc (some l)
    have hr := ihr q
    rw [List.perm_iff_count] at hc hr ⊢
    intro e
    have hce := hc e
    have hre := hr e
    simp only [List.count_append] at hce hre
    by_cases hl : l = p
    · subst hl
      simp only [appendChild, if_true, edges, edges_append, edges_single, labels_cons,
        List.count_cons, List.count_append, List.count_nil, List.replicate_add, List.replicate_one,
        beq_self_eq_true, Nat.add_assoc] at hce hre ⊢
      omega
    · simp only [appendChild, if_neg hl, edges, labels_cons, List.count_cons, List.count_append,
        List.replicate_add, beq_eq_false_iff_ne.mpr hl, Bool.false_eq_true, if_false,
        Nat.add_zero] at hce hre ⊢
      omega

/-- A root hangs under the parent that the edges are taken for. -/
theorem mem_edges_of_mem_roots {q : Option α} {f : OrderedForest α} {x : α} (h : x ∈ f.roots) :
    (q, x) ∈ edges q f := by
  induction f with
  | nil => cases h
  | cons l cs rest _ ih =>
    rcases List.mem_cons.mp h with rfl | h
    · exact List.mem_cons_self
    · exact List.mem_cons_of_mem _ (List.mem_append_right _ (ih h))

/-- A node hangs under the given parent as a root, or under a node as one of its children. -/
theorem mem_edges_iff {q r : Option α} {f : OrderedForest α} {x : α} :
    (r, x) ∈ edges q f ↔
      (r = q ∧ x ∈ f.roots) ∨ ∃ n ∈ f.nodes, r = some n.label ∧ x ∈ n.children.roots := by
  induction f generalizing q with
  | nil => simp [edges, roots, nodes]
  | cons l cs rest ihc ihr =>
    simp only [edges, roots, nodes, List.mem_cons, List.mem_append, Prod.mk.injEq, ihc, ihr]
    constructor
    · rintro (⟨rfl, rfl⟩ | (⟨rfl, hx⟩ | ⟨n, hn, h⟩) | (⟨rfl, hx⟩ | ⟨n, hn, h⟩))
      · exact Or.inl ⟨rfl, Or.inl rfl⟩
      · exact Or.inr ⟨_, Or.inl rfl, rfl, hx⟩
      · exact Or.inr ⟨n, Or.inr (Or.inl hn), h⟩
      · exact Or.inl ⟨rfl, Or.inr hx⟩
      · exact Or.inr ⟨n, Or.inr (Or.inr hn), h⟩
    · rintro (⟨rfl, rfl | hx⟩ | ⟨n, rfl | hn | hn, h⟩)
      · exact Or.inl ⟨rfl, rfl⟩
      · exact Or.inr (Or.inr (Or.inl ⟨rfl, hx⟩))
      · exact Or.inr (Or.inl (Or.inl h))
      · exact Or.inr (Or.inl (Or.inr ⟨n, hn, h⟩))
      · exact Or.inr (Or.inr (Or.inr ⟨n, hn, h⟩))

theorem mem_leaves_iff {f : OrderedForest α} {x : α} :
    x ∈ f.leaves ↔ ∃ n ∈ f.nodes, n.label = x ∧ n.children = nil := by
  induction f with
  | nil => simp [leaves, nodes]
  | cons l cs rest ihc ihr =>
    simp only [leaves, nodes, List.mem_append, List.mem_cons, ihr]
    by_cases hcs : cs = nil
    · subst hcs
      simp only [isEmpty, if_true, List.mem_singleton, nodes, List.not_mem_nil, false_or]
      constructor
      · rintro (rfl | ⟨n, hn, h⟩)
        · exact ⟨_, Or.inl rfl, rfl, rfl⟩
        · exact ⟨n, Or.inr hn, h⟩
      · rintro ⟨n, rfl | hn, h⟩
        · exact Or.inl h.1.symm
        · exact Or.inr ⟨n, hn, h⟩
    · have hempty : ¬ cs.isEmpty = true := fun h => hcs (isEmpty_iff.mp h)
      rw [if_neg hempty, ihc]
      constructor
      · rintro (⟨n, hn, h⟩ | ⟨n, hn, h⟩)
        · exact ⟨n, Or.inr (Or.inl hn), h⟩
        · exact ⟨n, Or.inr (Or.inr hn), h⟩
      · rintro ⟨n, rfl | hn | hn, h⟩
        · exact absurd h.2 hcs
        · exact Or.inl ⟨n, hn, h⟩
        · exact Or.inr ⟨n, hn, h⟩

theorem leaves_sublist (f : OrderedForest α) : List.Sublist f.leaves f.labels := by
  induction f with
  | nil => exact List.Sublist.slnil
  | cons l cs rest ihc ihr =>
    rw [leaves, labels_cons]
    split
    · exact (ihr.trans (List.sublist_append_right _ _)).cons_cons l
    · exact (ihc.append ihr).cons l

section Unique

variable {f : OrderedForest α}

/-- Where labels are unique, a label has one node. -/
theorem node_unique (h : f.labels.Nodup) {n m : Node α} (hn : n ∈ f.nodes) (hm : m ∈ f.nodes)
    (hlabel : n.label = m.label) : n = m :=
  List.inj_on_of_nodup_map h hn hm hlabel

theorem roots_ne_nil {g : OrderedForest α} (h : g ≠ nil) : ∃ x, x ∈ g.roots := by
  cases g with
  | nil => exact absurd rfl h
  | cons l cs rest => exact ⟨l, List.mem_cons_self⟩

/-- A leaf is a node that nothing hangs under. -/
theorem mem_leaves_iff_edges (h : f.labels.Nodup) {x : α} :
    x ∈ f.leaves ↔ x ∈ f.labels ∧ ∀ y, (some x, y) ∉ edges none f := by
  rw [mem_leaves_iff]
  constructor
  · rintro ⟨n, hn, rfl, hempty⟩
    refine ⟨List.mem_map_of_mem hn, fun y hy => ?_⟩
    rcases mem_edges_iff.mp hy with ⟨hq, -⟩ | ⟨m, hm, hlabel, hroot⟩
    · cases hq
    · have hnm : n = m := node_unique h hn hm (Option.some.inj hlabel)
      rw [← hnm, hempty] at hroot
      cases hroot
  · rintro ⟨hx, hnone⟩
    obtain ⟨n, hn, rfl⟩ := List.mem_map.mp hx
    refine ⟨n, hn, rfl, ?_⟩
    by_contra hchildren
    obtain ⟨y, hy⟩ := roots_ne_nil hchildren
    exact hnone y (mem_edges_iff.mpr (Or.inr ⟨n, hn, rfl, hy⟩))

/-- The children of a node are what hangs under its label. -/
theorem mem_children_iff (h : f.labels.Nodup) {n : Node α} (hn : n ∈ f.nodes) {y : α} :
    y ∈ n.children.roots ↔ (some n.label, y) ∈ edges none f := by
  constructor
  · intro hy
    exact mem_edges_iff.mpr (Or.inr ⟨n, hn, rfl, hy⟩)
  · intro hy
    rcases mem_edges_iff.mp hy with ⟨hq, -⟩ | ⟨m, hm, hlabel, hroot⟩
    · cases hq
    · rwa [node_unique h hn hm (Option.some.inj hlabel)]

theorem mem_roots_iff {y : α} : y ∈ f.roots ↔ (none, y) ∈ edges none f := by
  constructor
  · exact mem_edges_of_mem_roots
  · intro hy
    rcases mem_edges_iff.mp hy with ⟨-, hroot⟩ | ⟨m, -, hlabel, -⟩
    · exact hroot
    · cases hlabel

end Unique

end OrderedForest
