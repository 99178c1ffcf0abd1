import Mathlib.Data.List.Induction
import Recertia.Lib.PosixPath
import Recertia.Lib.Table

/-! Finite trees of directories, regular files and symbolic links below a root, and where a path
leads in one. -/
namespace LinkTree

open PosixPath (PurePath)

abbrev Path := List String

abbrev Bytes := List UInt8

inductive Node
  | dir
  | file (content : Bytes) (mtime : ℕ)
  | link (target : String)
  deriving DecidableEq, Repr

inductive Special
  | fifo
  | device
  | socket
  deriving DecidableEq, Repr

/-- A node without the time it was written. -/
def Node.untimed : Node → Node
  | .file content _ => .file content 0
  | n => n

/-- The nodes below the root; the root itself is a directory. -/
abbrev Tree := Table Path Node

def isDir (t : Tree) (p : Path) : Bool := p = [] || t.get? p = some .dir

/-- A tree as a file system holds it: every node stands in a directory. -/
structure Rooted where
  tree : Tree
  proper : ∀ p n, tree.get? p = some n → p ≠ []
  closed : ∀ p name n, tree.get? (p ++ [name]) = some n → isDir tree p = true

/-- Whether a row has its directory among the rows. -/
def standsIn {ν : Type} [DecidableEq ν] (dir : ν) (rows : List (Path × ν)) (row : Path × ν) :
    Bool :=
  row.1 ≠ [] && (row.1.dropLast = [] || (row.1.dropLast, dir) ∈ rows)

theorem proper_of_standsIn {ν : Type} [DecidableEq ν] {dir : ν} {t : Table Path ν}
    (h : t.rows.all (standsIn dir t.rows) = true) (p : Path) (n : ν) (hn : t.get? p = some n) :
    p ≠ [] := by
  have hrow := List.all_eq_true.mp h _ (Table.get?_eq_some.mp hn)
  exact of_decide_eq_true (Bool.and_eq_true_iff.mp hrow).1

theorem closed_of_standsIn {ν : Type} [DecidableEq ν] {dir : ν} {t : Table Path ν}
    (h : t.rows.all (standsIn dir t.rows) = true) (p : Path) (name : String) (n : ν)
    (hn : t.get? (p ++ [name]) = some n) : p = [] ∨ t.get? p = some dir := by
  have hrow := List.all_eq_true.mp h _ (Table.get?_eq_some.mp hn)
  simp only [standsIn, List.dropLast_concat, Bool.and_eq_true, Bool.or_eq_true,
    decide_eq_true_eq] at hrow
  rw [Table.get?_eq_some]
  exact hrow.2

def Rooted.ofRows (t : Tree) (h : t.rows.all (standsIn .dir t.rows) = true) : Rooted where
  tree := t
  proper := proper_of_standsIn h
  closed := by
    intro p name n hn
    rw [isDir, Bool.or_eq_true, decide_eq_true_eq, decide_eq_true_eq]
    exact closed_of_standsIn h p name n hn

theorem Rooted.ancestor (r : Rooted) {p q : Path} {n : Node} (hn : r.tree.get? p = some n)
    (hbelow : q <+: p) (hroot : q ≠ []) (hne : q ≠ p) : r.tree.get? q = some .dir := by
  obtain ⟨rest, rfl⟩ := hbelow
  induction rest using List.reverseRecOn generalizing n with
  | nil => exact absurd (List.append_nil q).symm hne
  | append_singleton rest name ih =>
    rw [← List.append_assoc] at hn
    have hparent := r.closed _ _ _ hn
    rw [isDir, Bool.or_eq_true, decide_eq_true_eq, decide_eq_true_eq] at hparent
    have hsome : r.tree.get? (q ++ rest) = some .dir := by
      rcases hparent with hnil | hdir
      · exact absurd (List.append_eq_nil_iff.mp hnil).1 hroot
      · exact hdir
    by_cases hrest : rest = []
    · rwa [hrest, List.append_nil] at hsome
    · refine ih hsome fun heq => hrest ?_
      exact List.append_cancel_left (heq.symm.trans (List.append_nil q).symm)

/-- One node at a path, whatever was there. -/
def put {ν : Type} (t : Table Path ν) (p : Path) (n : ν) : Table Path ν := t.upsert p n fun _ => n

def unlink {ν : Type} (t : Table Path ν) (p : Path) : Table Path ν := t.delete fun q _ => q = p

def rmtree {ν : Type} (t : Table Path ν) (p : Path) : Table Path ν :=
  t.delete fun q _ => p.isPrefixOf q

/-- The same paths, types, bytes and link targets. -/
def Same (a b : Tree) : Prop := ∀ p, (a.get? p).map Node.untimed = (b.get? p).map Node.untimed

@[simp] theorem get?_put {ν : Type} (t : Table Path ν) (p q : Path) (n : ν) :
    (put t p n).get? q = if q = p then some n else t.get? q := by
  rw [put, Table.get?_upsert]
  split
  · cases t.get? p <;> rfl
  · rfl

theorem get?_unlink {ν : Type} (t : Table Path ν) (p q : Path) :
    (unlink t q).get? p = if p = q then none else t.get? p := by
  rw [unlink, Table.get?_delete]
  by_cases hpq : p = q
  · rw [if_pos hpq]
    cases t.get? p <;> simp [hpq]
  · rw [if_neg hpq]
    cases t.get? p <;> simp [hpq]

theorem get?_rmtree {ν : Type} (t : Table Path ν) (p q : Path) :
    (rmtree t q).get? p = if q <+: p then none else t.get? p := by
  rw [rmtree, Table.get?_delete]
  by_cases hpq : q <+: p
  · rw [if_pos hpq]
    cases t.get? p <;> simp [List.isPrefixOf_iff_prefix, hpq]
  · have hno : q.isPrefixOf p = false := Bool.eq_false_iff.mpr (mt List.isPrefixOf_iff_prefix.mp hpq)
    rw [if_neg hpq]
    cases t.get? p <;> simp [hno]

/-- Where a path goes that leaves the tree: back to the root with parts that are left, or away, to
a directory or to something else. -/
inductive Elsewhere
  | back (parts : List String)
  | away (isDir : Bool)

/-- What stands around a root: for the parts that are left when a path has gone above it, and for
an absolute target with the parts behind it. -/
structure Place where
  above : List String → Elsewhere
  absolute : String → List String → Elsewhere

/-- A place that no path comes back to. -/
def Place.apart (isDir : List String → Bool) : Place :=
  ⟨fun parts => .away (isDir parts), fun _ _ => .away false⟩

inductive Real
  | inside (p : Path)
  | outside
  | loop
  deriving DecidableEq, Repr

def targetParts (target : String) : List String := (PurePath.ofStr target).parts

def isAbs (target : String) : Bool := (PurePath.ofStr target).anchor ≠ .relative

/-- `Path.resolve()`, which does not ask whether what it goes through is there. -/
def follow (place : Place) (t : Tree) : ℕ → Path → List String → Real
  | 0, _, _ => .loop
  | _ + 1, at_, [] => .inside at_
  | n + 1, at_, part :: todo =>
    if part = ".." then
      if at_ = [] then
        match place.above todo with
        | .back parts => follow place t n [] parts
        | .away _ => .outside
      else follow place t n at_.dropLast todo
    else
      match t.get? (at_ ++ [part]) with
      | some (.link target) =>
        if isAbs target then
          match place.absolute target todo with
          | .back parts => follow place t n [] parts
          | .away _ => .outside
        else follow place t n at_ (targetParts target ++ todo)
      | _ => follow place t n (at_ ++ [part]) todo

/-- `os.path.isdir`: every part but the last has to be a directory as well. -/
def leadsToDir (place : Place) (t : Tree) : ℕ → Path → List String → Bool
  | 0, _, _ => false
  | _ + 1, at_, [] => isDir t at_
  | n + 1, at_, part :: todo =>
    isDir t at_ &&
    if part = ".." then
      if at_ = [] then
        match place.above todo with
        | .back parts => leadsToDir place t n [] parts
        | .away isDir => isDir
      else leadsToDir place t n at_.dropLast todo
    else
      match t.get? (at_ ++ [part]) with
      | some (.link target) =>
        if isAbs target then
          match place.absolute target todo with
          | .back parts => leadsToDir place t n [] parts
          | .away isDir => isDir
        else leadsToDir place t n at_ (targetParts target ++ todo)
      | _ => leadsToDir place t n (at_ ++ [part]) todo

/-- Rows with different paths are all in the tree that they are put into. -/
theorem foldl_put (rows : List (Path × Node)) (hnodup : (rows.map Prod.fst).Nodup) (t : Tree) :
    (∀ row ∈ rows, (rows.foldl (fun u row => put u row.1 row.2) t).get? row.1 = some row.2) ∧
    ∀ p, p ∉ rows.map Prod.fst →
      (rows.foldl (fun u row => put u row.1 row.2) t).get? p = t.get? p := by
  induction rows generalizing t with
  | nil => exact ⟨fun row hrow => absurd hrow List.not_mem_nil, fun _ _ => rfl⟩
  | cons row rows ih =>
    obtain ⟨hfresh, hnodup'⟩ := List.nodup_cons.mp hnodup
    obtain ⟨hset, hkeep⟩ := ih hnodup' (put t row.1 row.2)
    rw [List.foldl_cons]
    refine ⟨List.forall_mem_cons.mpr ⟨?_, hset⟩, fun p hp => ?_⟩
    · rw [hkeep _ hfresh, get?_put, if_pos rfl]
    · rw [List.map_cons, List.mem_cons, not_or] at hp
      rw [hkeep p hp.2, get?_put, if_neg hp.1]

/-- A tree is made again from its rows. -/
theorem get?_foldl_put_empty (t : Tree) (p : Path) :
    (t.rows.foldl (fun u row => put u row.1 row.2) Table.empty).get? p = t.get? p := by
  obtain ⟨hset, hkeep⟩ := foldl_put t.rows t.nodup Table.empty
  cases hget : t.get? p with
  | some n => exact hset (p, n) (Table.get?_eq_some.mp hget)
  | none => exact hkeep p (Table.get?_eq_none.mp hget)

/-- A row below an entry of the root, told from that entry. -/
def rowBelow (name : String) : Path × Node → Option (Path × Node)
  | (first :: p, n) => if first = name ∧ p ≠ [] then some (p, n) else none
  | _ => none

/-- The tree below an entry of the root. -/
def subtree (t : Tree) (name : String) : Tree :=
  (t.rows.filterMap (rowBelow name)).foldl (fun u row => put u row.1 row.2) Table.empty

theorem mem_filterMap_rowBelow {t : Tree} {name : String} {p : Path} {n : Node} :
    (p, n) ∈ t.rows.filterMap (rowBelow name) ↔ p ≠ [] ∧ t.get? (name :: p) = some n := by
  rw [List.mem_filterMap]
  constructor
  · rintro ⟨⟨q, m⟩, hrow, hbelow⟩
    cases q with
    | nil => cases hbelow
    | cons first q =>
      rw [rowBelow] at hbelow
      split at hbelow
      · rename_i hfirst
        cases hbelow
        exact ⟨hfirst.2, Table.get?_eq_some.mpr (hfirst.1 ▸ hrow)⟩
      · cases hbelow
  · rintro ⟨hp, hget⟩
    exact ⟨(name :: p, n), Table.get?_eq_some.mp hget, by rw [rowBelow, if_pos ⟨rfl, hp⟩]⟩

theorem nodup_filterMap_rowBelow (t : Tree) (name : String) :
    ((t.rows.filterMap (rowBelow name)).map Prod.fst).Nodup := by
  refine List.Nodup.map_on ?_ (List.Nodup.filterMap ?_ (List.Nodup.of_map Prod.fst t.nodup))
  · rintro ⟨p, n⟩ hp ⟨q, m⟩ hq rfl
    have hn := (mem_filterMap_rowBelow.mp hp).2
    have hm := (mem_filterMap_rowBelow.mp hq).2
    rw [hn] at hm
    cases hm
    rfl
  · rintro ⟨p, n⟩ ⟨q, m⟩ row hp hq
    cases p with
    | nil => cases hp
    | cons first p =>
      cases q with
      | nil => cases hq
      | cons second q =>
        rw [rowBelow, Option.mem_def] at hp hq
        split at hp
        · rename_i hfirst
          split at hq
          · rename_i hsecond
            cases hp
            cases hq
            rw [hfirst.1, hsecond.1]
          · cases hq
        · cases hp

theorem get?_subtree (t : Tree) (name : String) (p : Path) :
    (subtree t name).get? p = if p = [] then none else t.get? (name :: p) := by
  obtain ⟨hset, hkeep⟩ := foldl_put _ (nodup_filterMap_rowBelow t name) Table.empty
  by_cases hp : p = []
  · rw [if_pos hp, subtree, hkeep p]
    · rfl
    · rintro hmem
      obtain ⟨⟨q, n⟩, hrow, rfl⟩ := List.mem_map.mp hmem
      exact (mem_filterMap_rowBelow.mp hrow).1 hp
  · rw [if_neg hp, subtree]
    cases hget : t.get? (name :: p) with
    | some n => exact hset (p, n) (mem_filterMap_rowBelow.mpr ⟨hp, hget⟩)
    | none =>
      rw [hkeep p]
      · rfl
      · rintro hmem
        obtain ⟨⟨q, n⟩, hrow, rfl⟩ := List.mem_map.mp hmem
        have hn := (mem_filterMap_rowBelow.mp hrow).2
        rw [hget] at hn
        cases hn

/-- Items that each settle what is found under their own path. -/
theorem foldlM_settle {ι σ ν : Type*} {f : σ → ι → Option σ} (find : σ → Path → Option ν)
    (key : ι → Path) (value : ι → ν) (ready : Option ν → Prop)
    (hf : ∀ s i, ready (find s (key i)) → ∃ u, f s i = some u ∧
      ∀ p, find u p = if p = key i then some (value i) else find s p)
    (items : List ι) (hnodup : (items.map key).Nodup) (s : σ)
    (hready : ∀ i ∈ items, ready (find s (key i))) :
    ∃ u, items.foldlM f s = some u ∧
      (∀ i ∈ items, find u (key i) = some (value i)) ∧
      ∀ p, p ∉ items.map key → find u p = find s p := by
  induction items generalizing s with
  | nil => exact ⟨s, rfl, fun i hi => absurd hi List.not_mem_nil, fun _ _ => rfl⟩
  | cons i items ih =>
    obtain ⟨hfresh, hnodup'⟩ := List.nodup_cons.mp hnodup
    obtain ⟨hi, hrest⟩ := List.forall_mem_cons.mp hready
    obtain ⟨u, hu, hget⟩ := hf s i hi
    have hother : ∀ p, p ≠ key i → find u p = find s p := fun p hp => by rw [hget, if_neg hp]
    have hkey : ∀ j ∈ items, key j ≠ key i := fun j hj heq =>
      hfresh (heq ▸ List.mem_map_of_mem hj)
    obtain ⟨v, hv, hset, hkeep⟩ := ih hnodup' u fun j hj => by
      rw [hother _ (hkey j hj)]
      exact hrest j hj
    refine ⟨v, by rw [List.foldlM_cons, hu]; exact hv, ?_, fun p hp => ?_⟩
    · rw [List.forall_mem_cons]
      refine ⟨?_, hset⟩
      rw [hkeep _ hfresh, hget, if_pos rfl]
    · rw [List.map_cons, List.mem_cons, not_or] at hp
      rw [hkeep p hp.2, hother p hp.1]

end LinkTree
