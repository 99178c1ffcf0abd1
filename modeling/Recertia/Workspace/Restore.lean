import Recertia.Workspace.Snapshot

/-! When a restore gives back the tree of the snapshot, for every tree and every change to it. -/
namespace Recertia.Workspace

open LinkTree

variable {fuel : ℕ}

theorem le_foldl_max (ns : List ℕ) (start n : ℕ) (h : n ∈ ns ∨ n ≤ start) :
    n ≤ ns.foldl max start := by
  induction ns generalizing start with
  | nil =>
    rcases h with h | h
    · exact absurd h List.not_mem_nil
    · exact h
  | cons m ns ih =>
    rw [List.foldl_cons]
    apply ih
    rcases h with h | h
    · rcases List.mem_cons.mp h with rfl | h
      · exact Or.inr (Nat.le_max_right start n)
      · exact Or.inl h
    · exact Or.inr (Nat.le_trans h (Nat.le_max_left start m))

theorem mem_topDown {α : Type} {depth : α → ℕ} {items : List α} {item : α} :
    item ∈ topDown depth items ↔ item ∈ items := by
  rw [topDown, List.mem_flatMap]
  constructor
  · rintro ⟨d, -, h⟩
    exact List.mem_of_mem_filter h
  · intro h
    have hle := le_foldl_max (items.map depth) 0 (depth item) (Or.inl (List.mem_map_of_mem h))
    exact ⟨depth item, List.mem_range.mpr (Nat.lt_succ_of_le hle),
      List.mem_filter.mpr ⟨h, decide_eq_true rfl⟩⟩

theorem nodup_topDown {α : Type} {depth : α → ℕ} {items : List α} (h : items.Nodup) :
    (topDown depth items).Nodup := by
  rw [topDown, List.nodup_flatMap]
  refine ⟨fun d _ => h.filter _, List.Nodup.pairwise_of_forall_ne List.nodup_range ?_⟩
  intro a _ b _ hab item ha hb
  have hda := of_decide_eq_true (List.mem_filter.mp ha).2
  have hdb := of_decide_eq_true (List.mem_filter.mp hb).2
  exact hab (hda.symm.trans hdb)

/-- The tree of what a walk takes. -/
def taken (fuel : ℕ) (place : Place) (t : Tree) : Tree :=
  t.delete fun p n => takes fuel place t (p, n) ≠ some true

theorem containedEntries_eq_some {place : Place} {t : Tree} {entries : List (Path × Node)} :
    containedEntries fuel place t = some entries ↔
      (∀ row ∈ t.rows, takes fuel place t row ≠ none) ∧ entries = (taken fuel place t).rows := by
  have hrows : ∀ rows entries, takenOf fuel place t rows = some entries ↔
      (∀ row ∈ rows, takes fuel place t row ≠ none) ∧
      entries = rows.filter fun row => !decide (takes fuel place t (row.1, row.2) ≠ some true) := by
    intro rows
    induction rows with
    | nil =>
      intro entries
      simp only [takenOf, Option.some.injEq, List.not_mem_nil, false_implies, implies_true,
        true_and, List.filter_nil]
      exact eq_comm
    | cons row rows ih =>
      intro entries
      simp only [takenOf, Option.bind_eq_bind, Option.bind_eq_some_iff, Option.pure_def,
        Option.some.injEq, ih, List.forall_mem_cons, List.filter_cons]
      cases htakes : takes fuel place t row with
      | none => simp
      | some b => cases b <;> simp [eq_comm]
  exact hrows t.rows entries

theorem copyTreeContained_eq_some {place : Place} {t r : Tree}
    (h : copyTreeContained fuel place t = some r) :
    (∀ row ∈ t.rows, takes fuel place t row ≠ none) ∧
      ∀ p, r.get? p = (taken fuel place t).get? p := by
  simp only [copyTreeContained, Option.bind_eq_bind, Option.bind_eq_some_iff, Option.pure_def,
    Option.some.injEq, containedEntries_eq_some] at h
  obtain ⟨entries, ⟨hall, rfl⟩, rfl⟩ := h
  exact ⟨hall, get?_foldl_put_empty _⟩

theorem copyTreeContained_isSome (place : Place) {t : Tree}
    (h : ∀ row ∈ t.rows, takes fuel place t row ≠ none) :
    ∃ r, copyTreeContained fuel place t = some r := by
  refine ⟨(taken fuel place t).rows.foldl (fun dst row => put dst row.1 row.2) Table.empty, ?_⟩
  rw [copyTreeContained, containedEntries_eq_some.mpr ⟨h, rfl⟩]
  rfl

theorem mem_dirsOf {entries : List (Path × Node)} {p : Path} :
    p ∈ dirsOf entries ↔ (p, .dir) ∈ entries := by
  rw [dirsOf, List.mem_filterMap]
  constructor
  · rintro ⟨⟨q, n⟩, hrow, hp⟩
    split at hp
    · rename_i hdir
      cases hp
      exact hdir ▸ hrow
    · cases hp
  · intro h
    exact ⟨_, h, if_pos rfl⟩

theorem mem_filesOf {entries : List (Path × Node)} {item : Path × Bytes × ℕ} :
    item ∈ filesOf entries ↔ (item.1, .file item.2.1 item.2.2) ∈ entries := by
  rw [filesOf, List.mem_filterMap]
  constructor
  · rintro ⟨⟨q, n⟩, hrow, hp⟩
    cases n with
    | file content mtime =>
      cases hp
      exact hrow
    | _ => cases hp
  · intro h
    exact ⟨_, h, rfl⟩

theorem mem_linksOf {entries : List (Path × Node)} {item : Path × String} :
    item ∈ linksOf entries ↔ (item.1, .link item.2) ∈ entries := by
  rw [linksOf, List.mem_filterMap]
  constructor
  · rintro ⟨⟨q, n⟩, hrow, hp⟩
    cases n with
    | link target =>
      cases hp
      exact hrow
    | _ => cases hp
  · intro h
    exact ⟨_, h, rfl⟩

theorem mem_files_iff (k : Tree) (p : Path) :
    p ∈ (filesOf k.rows).map Prod.fst ↔ ∃ content mtime, k.get? p = some (.file content mtime) := by
  simp only [Table.get?_eq_some]
  constructor
  · intro h
    obtain ⟨item, hitem, rfl⟩ := List.mem_map.mp h
    exact ⟨_, _, mem_filesOf.mp hitem⟩
  · rintro ⟨content, mtime, h⟩
    exact List.mem_map.mpr ⟨(p, content, mtime), mem_filesOf.mpr h, rfl⟩

theorem mem_links_iff (k : Tree) (p : Path) :
    p ∈ (linksOf k.rows).map Prod.fst ↔ ∃ target, k.get? p = some (.link target) := by
  simp only [Table.get?_eq_some]
  constructor
  · intro h
    obtain ⟨item, hitem, rfl⟩ := List.mem_map.mp h
    exact ⟨_, mem_linksOf.mp hitem⟩
  · rintro ⟨target, h⟩
    exact List.mem_map.mpr ⟨(p, target), mem_linksOf.mpr h, rfl⟩

theorem notMem_files {k : Tree} {p : Path} {n : Option Node} (hk : k.get? p = n)
    (hn : ∀ content mtime, n ≠ some (.file content mtime)) :
    p ∉ (filesOf k.rows).map Prod.fst := by
  rw [mem_files_iff, hk]
  rintro ⟨content, mtime, h⟩
  exact hn content mtime h

theorem notMem_links {k : Tree} {p : Path} {n : Option Node} (hk : k.get? p = n)
    (hn : ∀ target, n ≠ some (.link target)) : p ∉ (linksOf k.rows).map Prod.fst := by
  rw [mem_links_iff, hk]
  rintro ⟨target, h⟩
  exact hn target h

/-- What is taken stands in directories that are taken. -/
def Closed (k : Tree) : Prop :=
  ∀ p q n, k.get? p = some n → q <+: p → q ≠ [] → q ≠ p → k.get? q = some .dir

/-- A workdir in which every name stands in a directory. -/
structure Changed where
  dir : Workdir
  proper : ∀ p n, dir.names.get? p = some n → p ≠ []
  closed : ∀ p name n, dir.names.get? (p ++ [name]) = some n →
    p = [] ∨ dir.names.get? p = some .dir

def Changed.ofRows (d : Workdir) (h : d.names.rows.all (standsIn .dir d.names.rows) = true) :
    Changed :=
  ⟨d, proper_of_standsIn h, closed_of_standsIn h⟩

section Sync

variable {k : Tree} (hclosed : Closed k) (dst : Changed) (listed : Path → Bool)

/-- The names after the walk from below. -/
def pruned (k : Tree) (dst : Changed) (listed : Path → Bool) : Table Path Dirent :=
  (topDown (fun row => row.1.length) dst.dir.names.rows).reverse.foldl (pruneEntry k.rows listed)
    dst.dir.names

theorem get?_pruned (k : Tree) (p : Path) : (pruned k dst listed).get? p =
    if dst.dir.names.rows.any fun row => dooms k.rows listed row p then none
    else dst.dir.names.get? p := by
  have hany : (topDown (fun row : Path × Dirent => row.1.length) dst.dir.names.rows).reverse.any
      (fun row => dooms k.rows listed row p) =
      dst.dir.names.rows.any fun row => dooms k.rows listed row p := by
    rw [Bool.eq_iff_iff, List.any_eq_true, List.any_eq_true]
    simp only [List.mem_reverse, mem_topDown]
  rw [pruned, get?_prune, hany]

theorem pruned_or (k : Tree) (p : Path) :
    (pruned k dst listed).get? p = none ∨
      (pruned k dst listed).get? p = dst.dir.names.get? p := by
  rw [get?_pruned]
  split
  · exact Or.inl rfl
  · exact Or.inr rfl

theorem pruned_of_dooms {p : Path} {n : Dirent} (hn : dst.dir.names.get? p = some n)
    (h : dooms k.rows listed (p, n) p = true) : (pruned k dst listed).get? p = none := by
  rw [get?_pruned, if_pos]
  exact List.any_eq_true.mpr ⟨(p, n), Table.get?_eq_some.mp hn, h⟩

theorem pruned_of_dir {p : Path} (hn : dst.dir.names.get? p = some .dir)
    (hk : k.get? p ≠ some .dir) : (pruned k dst listed).get? p = none := by
  refine pruned_of_dooms dst listed hn ?_
  have hdirs : p ∉ dirsOf k.rows := fun h => hk (Table.get?_eq_some.mpr (mem_dirsOf.mp h))
  simp only [dooms, hdirs, not_false_eq_true, decide_true, Bool.true_and]
  exact List.isPrefixOf_iff_prefix.mpr (List.prefix_refl p)

/-- A file or link goes where neither belongs. -/
theorem pruned_of_ne_dir {p : Path} {n : Dirent} (hn : dst.dir.names.get? p = some n)
    (hne : n ≠ .dir) (hfiles : p ∉ (filesOf k.rows).map Prod.fst)
    (hlinks : p ∉ (linksOf k.rows).map Prod.fst) : (pruned k dst listed).get? p = none := by
  apply pruned_of_dooms dst listed hn
  cases n with
  | dir => exact absurd rfl hne
  | link target =>
    simp only [dooms, hlinks, not_false_eq_true, decide_true, Bool.or_true, Bool.true_or,
      Bool.and_self]
  | _ => simp only [dooms, hfiles, hlinks, not_false_eq_true, decide_true, Bool.and_self]

theorem pruned_none {p : Path} (hk : k.get? p = none) : (pruned k dst listed).get? p = none := by
  have hfiles : p ∉ (filesOf k.rows).map Prod.fst := notMem_files hk (by simp)
  have hlinks : p ∉ (linksOf k.rows).map Prod.fst := notMem_links hk (by simp)
  cases hn : dst.dir.names.get? p with
  | none =>
    rcases pruned_or dst listed k p with h | h
    · exact h
    · rw [h, hn]
  | some n =>
    by_cases hdir : n = .dir
    · exact pruned_of_dir dst listed (hdir ▸ hn) (by rw [hk]; simp)
    · exact pruned_of_ne_dir dst listed hn hdir hfiles hlinks

theorem pruned_dir {p : Path} (hk : k.get? p = some .dir) :
    (pruned k dst listed).get? p = none ∨ (pruned k dst listed).get? p = some .dir := by
  have hfiles : p ∉ (filesOf k.rows).map Prod.fst := notMem_files hk (by simp)
  have hlinks : p ∉ (linksOf k.rows).map Prod.fst := notMem_links hk (by simp)
  rcases pruned_or dst listed k p with h | h
  · exact Or.inl h
  · cases hn : dst.dir.names.get? p with
    | none => exact Or.inl (h.trans hn)
    | some n =>
      by_cases hdir : n = .dir
      · exact Or.inr (h.trans (hdir ▸ hn))
      · exact Or.inl (pruned_of_ne_dir dst listed hn hdir hfiles hlinks)

theorem pruned_ne_dir {p : Path} (hk : k.get? p ≠ some .dir) :
    (pruned k dst listed).get? p ≠ some .dir := by
  intro h
  rcases pruned_or dst listed k p with hnone | hsame
  · rw [h] at hnone
    cases hnone
  · rw [pruned_of_dir dst listed (hsame.symm.trans h) hk] at h
    cases h

/-- Whether `copy2` finds something to write to. -/
def Dirent.opens : Dirent → Bool
  | .file _ => true
  | .special _ _ => true
  | _ => false

include hclosed in
/-- The walk leaves what `copy2` can write to where a file belongs, and nothing else there. -/
theorem pruned_file {p : Path} {content : Bytes} {mtime : ℕ}
    (hk : k.get? p = some (.file content mtime)) :
    (pruned k dst listed).get? p = (dst.dir.names.get? p).filter Dirent.opens := by
  have hfiles : p ∈ (filesOf k.rows).map Prod.fst := (mem_files_iff k p).mpr ⟨_, _, hk⟩
  cases hn : dst.dir.names.get? p with
  | none =>
    rcases pruned_or dst listed k p with h | h
    · exact h
    · exact h.trans hn
  | some n =>
    by_cases hopens : n.opens = true
    · -- Only the removal of a directory above could take it along, and those are all taken.
      have hkept : (dst.dir.names.rows.any fun row => dooms k.rows listed row p) = false := by
        rw [List.any_eq_false]
        rintro ⟨q, m⟩ hrow
        have hq := Table.get?_eq_some.mpr hrow
        cases m with
        | dir =>
          intro hdoom
          simp only [dooms, Bool.and_eq_true, decide_eq_true_eq,
            List.isPrefixOf_iff_prefix] at hdoom
          obtain ⟨hdirs, hbelow⟩ := hdoom
          have hne : q ≠ p := by
            rintro rfl
            rw [hn] at hq
            cases hq
            cases hopens
          exact hdirs (mem_dirsOf.mpr (Table.get?_eq_some.mp
            (hclosed p q _ hk hbelow (dst.proper q _ hq) hne)))
        | link target =>
          intro hdoom
          simp only [dooms, Bool.and_eq_true, decide_eq_true_eq] at hdoom
          rw [← hdoom.2, hn] at hq
          cases hq
          cases hopens
        | _ =>
          intro hdoom
          simp only [dooms, Bool.and_eq_true, decide_eq_true_eq] at hdoom
          exact hdoom.1.1 (hdoom.2 ▸ hfiles)
      rw [get?_pruned, hkept, if_neg Bool.false_ne_true, hn, Option.filter_some, if_pos hopens]
    · rw [Option.filter_some, if_neg hopens]
      cases n with
      | dir => exact pruned_of_dir dst listed hn (by rw [hk]; simp)
      | link target =>
        exact pruned_of_dooms dst listed hn (by
          simp only [dooms, hfiles, decide_true, Bool.or_true, Bool.and_self])
      | _ => exact absurd rfl hopens

theorem nodup_filterMap {α : Type} (k : Tree) (f : Path × Node → Option α) (key : α → Path)
    (hf : ∀ row item, f row = some item → key item = row.1) :
    ((k.rows.filterMap f).map key).Nodup := by
  have hsub : ((k.rows.filterMap f).map key).Sublist (k.rows.map Prod.fst) := by
    induction k.rows with
    | nil => exact List.Sublist.slnil
    | cons row rows ih =>
      rw [List.filterMap_cons, List.map_cons]
      cases hrow : f row with
      | none => exact ih.cons _
      | some item =>
        rw [List.map_cons, hf row item hrow]
        exact ih.cons_cons _
  exact k.nodup.sublist hsub

theorem nodup_filesOf (k : Tree) : ((filesOf k.rows).map Prod.fst).Nodup := by
  refine nodup_filterMap k _ Prod.fst fun row item hrow => ?_
  obtain ⟨p, n⟩ := row
  cases n with
  | file content mtime =>
    cases hrow
    rfl
  | _ => cases hrow

theorem nodup_linksOf (k : Tree) : ((linksOf k.rows).map Prod.fst).Nodup := by
  refine nodup_filterMap k _ Prod.fst fun row item hrow => ?_
  obtain ⟨p, n⟩ := row
  cases n with
  | link target =>
    cases hrow
    rfl
  | _ => cases hrow

/-- The directories are made. -/
theorem made_spec : ∃ made, (topDown List.length (dirsOf k.rows)).foldlM makeDir
      (pruned k dst listed) = some made ∧
    ∀ p, made.get? p =
      if k.get? p = some .dir then some .dir else (pruned k dst listed).get? p := by
  have hmake : ∀ (t : Table Path Dirent) (p : Path), (t.get? p = none ∨ t.get? p = some .dir) →
      ∃ u, makeDir t p = some u ∧
        ∀ q, u.get? q = if q = p then some Dirent.dir else t.get? q := by
    intro t p hready
    refine ⟨put t p .dir, ?_, fun q => get?_put t p q .dir⟩
    rcases hready with h | h <;> simp only [makeDir, h]
  have hnodup : ((topDown List.length (dirsOf k.rows)).map id).Nodup := by
    rw [List.map_id]
    refine nodup_topDown ?_
    have hnodup := nodup_filterMap k (fun row => if row.2 = .dir then some row.1 else none) id
      fun row item hrow => by
        split at hrow
        · exact (Option.some.inj hrow).symm
        · cases hrow
    rwa [List.map_id] at hnodup
  obtain ⟨made, hmade, hset, hkeep⟩ := foldlM_settle Table.get? id (fun _ => Dirent.dir)
    (fun n => n = none ∨ n = some .dir) hmake _ hnodup (pruned k dst listed) fun p hp =>
      pruned_dir dst listed (Table.get?_eq_some.mpr (mem_dirsOf.mp (mem_topDown.mp hp)))
  refine ⟨made, hmade, fun p => ?_⟩
  by_cases hdir : k.get? p = some .dir
  · rw [if_pos hdir]
    exact hset p (mem_topDown.mpr (mem_dirsOf.mpr (Table.get?_eq_some.mp hdir)))
  · rw [if_neg hdir]
    refine hkeep p fun hp => hdir ?_
    rw [List.map_id, mem_topDown, mem_dirsOf] at hp
    exact Table.get?_eq_some.mpr hp

/-- What a file of the snapshot leaves of an inode: the same size and time count as untouched. -/
def settle (old : Bytes × ℕ) (item : Path × Bytes × ℕ) : Bytes × ℕ :=
  if old.1.length = item.2.1.length ∧ old.2 = item.2.2 then old else item.2

theorem newInode_fresh (d : Workdir) (p : Path) : d.names.get? p ≠ some (.file d.newInode) := by
  intro h
  have hlt : d.newInode < d.newInode :=
    le_foldl_max _ 0 _ (Or.inl (List.mem_map.mpr ⟨_, Table.get?_eq_some.mp h, rfl⟩))
  exact Nat.lt_irrefl _ hlt

/-- One file written: to the inode that is there, or to one that no name has. -/
theorem syncFile_spec (d : Workdir) (item : Path × Bytes × ℕ)
    (hready : d.names.get? item.1 = none ∨ ∃ i, d.names.get? item.1 = some (.file i)) :
    ∃ u, syncFile d item = some u ∧
      ((∃ i, d.names.get? item.1 = some (.file i) ∧ u.names = d.names ∧
        u.data = Function.update d.data i (settle (d.data i) item)) ∨
      ∃ i, d.names.get? item.1 = none ∧ (∀ p, d.names.get? p ≠ some (.file i)) ∧
        (∀ p, u.names.get? p = if p = item.1 then some (.file i) else d.names.get? p) ∧
        u.data = Function.update d.data i item.2) := by
  rcases hready with h | ⟨i, h⟩
  · refine ⟨d.create item.1 item.2.1 item.2.2, by simp only [syncFile, h], Or.inr ?_⟩
    exact ⟨d.newInode, h, newInode_fresh d, fun p => get?_put d.names item.1 p _, rfl⟩
  · by_cases hsame : (d.data i).1.length = item.2.1.length ∧ (d.data i).2 = item.2.2
    · refine ⟨d, by simp only [syncFile, h, if_pos hsame], Or.inl ⟨i, h, rfl, ?_⟩⟩
      rw [settle, if_pos hsame, Function.update_eq_self]
    · refine ⟨d.write i item.2.1 item.2.2, by simp only [syncFile, h, if_neg hsame],
        Or.inl ⟨i, h, rfl, ?_⟩⟩
      rw [settle, if_neg hsame]
      rfl

/-- The files whose names have an inode. -/
def onInode (names : Table Path Dirent) (i : ℕ) (items : List (Path × Bytes × ℕ)) :
    List (Path × Bytes × ℕ) :=
  items.filter fun item => names.get? item.1 = some (.file i)

theorem onInode_congr {t u : Table Path Dirent} {i : ℕ} {items : List (Path × Bytes × ℕ)}
    (h : ∀ item ∈ items, (t.get? item.1 = some (.file i) ↔ u.get? item.1 = some (.file i))) :
    onInode t i items = onInode u i items := by
  refine List.filter_congr fun item hitem => ?_
  rw [decide_eq_decide]
  exact h item hitem

/-- What the files with an inode leave of it. -/
def settled (names : Table Path Dirent) (items : List (Path × Bytes × ℕ)) (i : ℕ)
    (old : Bytes × ℕ) : Bytes × ℕ :=
  (onInode names i items).foldl settle old

/-- All files written: an inode that had a name goes through its files, and a file without a name
gets an inode of its own. -/
theorem syncFiles_spec (items : List (Path × Bytes × ℕ)) (hnodup : (items.map Prod.fst).Nodup)
    (d : Workdir) (hready : ∀ item ∈ items, d.names.get? item.1 = none ∨
      ∃ i, d.names.get? item.1 = some (.file i)) :
    ∃ u, items.foldlM syncFile d = some u ∧
      (∀ p, p ∉ items.map Prod.fst → u.names.get? p = d.names.get? p) ∧
      (∀ p i, d.names.get? p = some (.file i) → u.names.get? p = some (.file i) ∧
        u.data i = settled d.names items i (d.data i)) ∧
      ∀ item ∈ items, d.names.get? item.1 = none →
        ∃ i, u.names.get? item.1 = some (.file i) ∧ u.data i = item.2 := by
  induction items generalizing d with
  | nil =>
    exact ⟨d, rfl, fun _ _ => rfl, fun p i h => ⟨h, rfl⟩,
      fun item hitem => absurd hitem List.not_mem_nil⟩
  | cons a items ih =>
    obtain ⟨hfresh, hnodup'⟩ := List.nodup_cons.mp hnodup
    obtain ⟨ha, hrest⟩ := List.forall_mem_cons.mp hready
    have hkey : ∀ item ∈ items, item.1 ≠ a.1 := fun item hitem heq =>
      hfresh (heq ▸ List.mem_map_of_mem hitem)
    obtain ⟨u, hu, ⟨j, hj, hnames, hdata⟩ | ⟨j, hj, hnew, hnames, hdata⟩⟩ := syncFile_spec d a ha
    · -- The name was there: no name changes, and its inode takes one more step.
      obtain ⟨v, hv, hkeep, hset, hmade⟩ := ih hnodup' u (by rwa [hnames])
      refine ⟨v, by rw [List.foldlM_cons, hu]; exact hv, fun p hp => ?_, fun p i hp => ?_, ?_⟩
      · rw [hkeep p fun h => hp (List.mem_cons_of_mem _ h), hnames]
      · obtain ⟨hsame, hi⟩ := hset p i (by rwa [hnames])
        refine ⟨hsame, ?_⟩
        rw [hi, hnames, hdata, settled, settled, onInode, onInode, List.filter_cons, hj]
        by_cases hij : j = i
        · rw [hij, Function.update_self, if_pos (decide_eq_true rfl), List.foldl_cons]
        · rw [Function.update_of_ne (Ne.symm hij),
            if_neg (by simp only [Option.some.injEq, Dirent.file.injEq, hij, decide_false,
              Bool.false_eq_true, not_false_eq_true])]
      · rw [List.forall_mem_cons]
        refine ⟨fun hnone => ?_, fun item hitem hnone => hmade item hitem (by rwa [hnames])⟩
        rw [hj] at hnone
        cases hnone
    · -- The name is new, so no other name has its inode and nothing writes to it again.
      have hother : ∀ item ∈ items, u.names.get? item.1 = d.names.get? item.1 :=
        fun item hitem => by rw [hnames, if_neg (hkey item hitem)]
      obtain ⟨v, hv, hkeep, hset, hmade⟩ := ih hnodup' u fun item hitem => by
        rw [hother item hitem]
        exact hrest item hitem
      refine ⟨v, by rw [List.foldlM_cons, hu]; exact hv, fun p hp => ?_, fun p i hp => ?_, ?_⟩
      · rw [List.map_cons, List.mem_cons, not_or] at hp
        rw [hkeep p hp.2, hnames, if_neg hp.1]
      · have hpa : p ≠ a.1 := by
          rintro rfl
          rw [hj] at hp
          cases hp
        have hij : i ≠ j := fun h => hnew p (h ▸ hp)
        obtain ⟨hsame, hi⟩ := hset p i (by rwa [hnames, if_neg hpa])
        refine ⟨hsame, ?_⟩
        have hcongr : onInode u.names i items = onInode d.names i items :=
          onInode_congr fun item hitem => by rw [hother item hitem]
        have hskip : onInode d.names i (a :: items) = onInode d.names i items := by
          rw [onInode, List.filter_cons, hj, if_neg (by simp), onInode]
        rw [hi, hdata, Function.update_of_ne hij, settled, settled, hcongr, hskip]
      · rw [List.forall_mem_cons]
        refine ⟨fun _ => ?_, fun item hitem hnone => hmade item hitem (by rwa [hother item hitem])⟩
        obtain ⟨hsame, hi⟩ := hset a.1 j (by rw [hnames, if_pos rfl])
        have hnone : onInode u.names j items = [] := by
          refine List.filter_eq_nil_iff.mpr fun item hitem h => ?_
          rw [hother item hitem] at h
          exact hnew item.1 (of_decide_eq_true h)
        exact ⟨j, hsame, by rw [hi, settled, hnone, hdata, Function.update_self]; rfl⟩

theorem syncLink_spec (t : Table Path Dirent) (item : Path × String)
    (hready : t.get? item.1 ≠ some .dir) : ∃ u, syncLink t item = some u ∧ ∀ p, u.get? p =
      if p = item.1 then some (.link item.2) else t.get? p := by
  obtain ⟨q, target⟩ := item
  have hput := fun p => get?_put t q p (.link target)
  cases hq : t.get? q with
  | none => exact ⟨_, by simp only [syncLink, hq], hput⟩
  | some n =>
    cases n with
    | dir => exact absurd hq hready
    | link old =>
      by_cases hsame : old = target
      · refine ⟨t, by simp only [syncLink, hq, if_pos hsame], fun p => ?_⟩
        by_cases hp : p = q
        · rw [if_pos hp, hp, hq, hsame]
        · rw [if_neg hp]
      · exact ⟨_, by simp only [syncLink, hq, if_neg hsame], hput⟩
    | _ => exact ⟨_, by simp only [syncLink, hq], hput⟩

/-- What a sync leaves of an entry. -/
def synced (k : Tree) (dst : Changed) (p : Path) : Node → Found
  | .file content mtime =>
    match dst.dir.names.get? p with
    | some (.file i) =>
      let data := settled dst.dir.names (filesOf k.rows) i (dst.dir.data i)
      .node (.file data.1 data.2)
    | _ => .node (.file content mtime)
  | n => .node n

/-- A file whose name has no inode is made. -/
theorem synced_made (k : Tree) {dst : Changed} {p : Path}
    (h : ¬ ∃ i, dst.dir.names.get? p = some (.file i)) (content : Bytes) (mtime : ℕ) :
    synced k dst p (.file content mtime) = .node (.file content mtime) := by
  rw [synced]
  split
  · rename_i i hi
    exact absurd ⟨i, hi⟩ h
  · rfl

/-- No special file stands in the place of a regular one. -/
def Regular (k : Tree) (dst : Changed) : Prop :=
  ∀ p content mtime, k.get? p = some (.file content mtime) →
    ∀ kind time, dst.dir.names.get? p ≠ some (.special kind time)

/-- `_sync_directory` behind its first walk. -/
def syncEntries (k : Tree) (dst : Changed) (listed : Path → Bool) : Option Workdir := do
  let made ← (topDown List.length (dirsOf k.rows)).foldlM makeDir (pruned k dst listed)
  let filled ← (filesOf k.rows).foldlM syncFile ⟨made, dst.dir.data⟩
  let linked ← (linksOf k.rows).foldlM syncLink filled.names
  return ⟨linked, filled.data⟩

theorem file_of_mem {item : Path × Bytes × ℕ} (h : item ∈ filesOf k.rows) :
    k.get? item.1 = some (.file item.2.1 item.2.2) := Table.get?_eq_some.mpr (mem_filesOf.mp h)

theorem link_of_mem {item : Path × String} (h : item ∈ linksOf k.rows) :
    k.get? item.1 = some (.link item.2) := Table.get?_eq_some.mpr (mem_linksOf.mp h)

theorem notMem_files_of_link {p : Path} {target : String} (hk : k.get? p = some (.link target)) :
    p ∉ (filesOf k.rows).map Prod.fst := notMem_files hk (by simp)

include hclosed in
/-- Where a file belongs, the directories made leave what `copy2` can write to. -/
theorem made_file {made : Table Path Dirent} (hmade : ∀ p, made.get? p =
      if k.get? p = some .dir then some .dir else (pruned k dst listed).get? p)
    (p : Path) (content : Bytes) (mtime : ℕ) (hk : k.get? p = some (.file content mtime)) :
    made.get? p = (dst.dir.names.get? p).filter Dirent.opens := by
  rw [hmade, if_neg (by simp [hk]), pruned_file hclosed dst listed hk]

include hclosed in
/-- A sync leaves the entries, up to what it takes to be untouched, and nothing else. -/
theorem sync_spec (hregular : Regular k dst) : ∃ u, syncEntries k dst listed = some u ∧
    ∀ p, u.tree.get? p = (k.get? p).map (synced k dst p) := by
  obtain ⟨made, hmade, hgetMade⟩ := made_spec (k := k) dst listed
  have hfile := made_file hclosed dst listed hgetMade
  have hready : ∀ item ∈ filesOf k.rows, made.get? item.1 = none ∨
      ∃ i, made.get? item.1 = some (.file i) := by
    intro item hitem
    have hk := file_of_mem hitem
    rw [hfile _ _ _ hk]
    cases hn : dst.dir.names.get? item.1 with
    | none => exact Or.inl rfl
    | some n =>
      cases n with
      | file i => exact Or.inr ⟨i, rfl⟩
      | special kind time => exact absurd hn (hregular _ _ _ hk kind time)
      | _ => exact Or.inl rfl
  obtain ⟨filled, hfilled, hkeep, hset, hnew⟩ :=
    syncFiles_spec (filesOf k.rows) (nodup_filesOf k) ⟨made, dst.dir.data⟩ hready
  have hlinkReady : ∀ item ∈ linksOf k.rows, filled.names.get? item.1 ≠ some .dir := by
    intro item hitem
    have hk := link_of_mem hitem
    rw [hkeep _ (notMem_files_of_link hk), hgetMade, if_neg (by simp [hk])]
    exact pruned_ne_dir dst listed (by simp [hk])
  obtain ⟨linked, hlinked, hsetLink, hkeepLink⟩ := foldlM_settle Table.get? Prod.fst
    (fun item => Dirent.link item.2) (fun n => n ≠ some .dir) syncLink_spec (linksOf k.rows)
    (nodup_linksOf k) filled.names hlinkReady
  refine ⟨⟨linked, filled.data⟩, ?_, fun p => ?_⟩
  · simp only [syncEntries, hmade, hfilled, hlinked, Option.bind_eq_bind, Option.bind_some,
      Option.pure_def]
  rw [Workdir.tree, Table.get?_mapValues]
  cases hk : k.get? p with
  | none =>
    rw [hkeepLink p (notMem_links hk (by simp)), hkeep p (notMem_files hk (by simp)), hgetMade,
      if_neg (by simp [hk]), pruned_none dst listed hk]
    rfl
  | some n =>
    cases n with
    | dir =>
      rw [hkeepLink p (notMem_links hk (by simp)), hkeep p (notMem_files hk (by simp)), hgetMade,
        if_pos hk]
      rfl
    | link target =>
      rw [hsetLink _ (mem_linksOf.mpr (Table.get?_eq_some.mp hk) : (p, target) ∈ _)]
      rfl
    | file content mtime =>
      have hitem : (p, content, mtime) ∈ filesOf k.rows :=
        mem_filesOf.mpr (Table.get?_eq_some.mp hk)
      rw [hkeepLink p (notMem_links hk (by simp)), Option.map_some]
      have hmade := hfile p _ _ hk
      by_cases hinode : ∃ i, dst.dir.names.get? p = some (.file i)
      · obtain ⟨i, hi⟩ := hinode
        rw [hi] at hmade
        obtain ⟨hname, hdata⟩ := hset p i hmade
        have hsame : onInode made i (filesOf k.rows) =
            onInode dst.dir.names i (filesOf k.rows) := by
          refine onInode_congr fun item hitem => ?_
          rw [hfile _ _ _ (file_of_mem hitem), Option.filter_eq_some_iff]
          exact and_iff_left rfl
        rw [hname, Option.map_some, Workdir.read, hdata, settled, hsame, ← settled, synced, hi]
      · have hnone : made.get? p = none := by
          rcases hready _ hitem with h | ⟨i, h⟩
          · exact h
          · refine absurd ⟨i, ?_⟩ hinode
            rw [hmade, Option.filter_eq_some_iff] at h
            exact h.1
        obtain ⟨i, hname, hdata⟩ := hnew _ hitem hnone
        rw [hname, Option.map_some, Workdir.read, hdata, synced_made k hinode]

end Sync

theorem get?_taken (place : Place) (t : Tree) (p : Path) {n : Node} :
    (taken fuel place t).get? p = some n ↔
      t.get? p = some n ∧ takes fuel place t (p, n) = some true := by
  rw [taken, Table.get?_delete, Option.filter_eq_some_iff]
  simp only [Bool.not_eq_true', decide_eq_false_iff_not, not_not]

theorem closed_taken {t : Tree} (h : Closed t) (place : Place) : Closed (taken fuel place t) :=
  fun p q n hn hbelow hroot hne => (get?_taken place t q).mpr
    ⟨h p q n ((get?_taken place t p).mp hn).1 hbelow hroot hne, rfl⟩

def Found.untimed : Found → Found
  | .node n => .node n.untimed
  | .special kind _ => .special kind 0

/-- The same paths, types, bytes and link targets. -/
def Mirrors (r : Table Path Found) (w : Tree) : Prop :=
  ∀ p, (r.get? p).map Found.untimed = (w.get? p).map fun n => .node n.untimed

/-- What a restore leaves of an entry. -/
def restored (k : Tree) (workdir : Option Changed) (p : Path) (n : Node) : Found :=
  match workdir with
  | none => .node n
  | some dst => synced k dst p n

theorem syncDirectory_eq {place : Place} {src : Tree}
    (hall : ∀ row ∈ src.rows, takes fuel place src row ≠ none) (listed : Path → Bool)
    (dst : Changed) : syncDirectory fuel place listed src dst.dir =
      syncEntries (taken fuel place src) dst listed := by
  rw [syncDirectory, containedEntries_eq_some.mpr ⟨hall, rfl⟩]
  rfl

/-- A restore over regular files leaves the entries that it takes from the snapshot. -/
theorem restore_spec {place : Place} {src : Tree} (hsrc : Closed src)
    (hall : ∀ row ∈ src.rows, takes fuel place src row ≠ none) (listed : Path → Bool)
    (workdir : Option Changed)
    (hregular : ∀ dst ∈ workdir, Regular (taken fuel place src) dst) :
    ∃ r, restore fuel place listed src (workdir.map Changed.dir) = some r ∧
      ∀ p, r.get? p =
        ((taken fuel place src).get? p).map (restored (taken fuel place src) workdir p) := by
  cases workdir with
  | none =>
    obtain ⟨t, ht⟩ := copyTreeContained_isSome place hall
    obtain ⟨-, hget⟩ := copyTreeContained_eq_some ht
    refine ⟨t.mapValues .node, by simp only [restore, Option.map_none, ht, Option.map_some],
      fun p => ?_⟩
    rw [Table.get?_mapValues, hget]
    rfl
  | some dst =>
    obtain ⟨u, hu, hget⟩ := sync_spec (closed_taken hsrc place) dst listed (hregular dst rfl)
    refine ⟨u.tree, ?_, hget⟩
    simp only [restore, Option.map_some, syncDirectory_eq hall, hu]

/-- Two files of the same bytes and a link to one of them. -/
def linked : Rooted :=
  .ofRows ⟨[(["f"], .file [104, 105] 7), (["g"], .file [104, 105] 8), (["l"], .link "f")],
    by decide⟩ (by decide)

end Recertia.Workspace
