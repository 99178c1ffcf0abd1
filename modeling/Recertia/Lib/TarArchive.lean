import Mathlib.Data.List.Infix
import Mathlib.Data.List.Sort
import Mathlib.Data.String.Basic
import Recertia.Lib.LinkTree

/-! Tar archives of file trees: the members that are written, and their extraction through the
filter for data. Modes, owners and times are left out. -/
namespace TarArchive

open LinkTree

/-- What the writer finds at a path: a file with its inode, or one that has no other name. -/
inductive Stat
  | dir
  | file (inode : ℕ) (content : Bytes)
  | sole (content : Bytes)
  | link (target : String)
  | special (kind : Special)
  deriving DecidableEq, Repr

inductive Kind
  | dir
  | reg (content : Bytes)
  | hard (linkname : Path)
  | sym (linkname : String)
  | special
  deriving DecidableEq, Repr

structure Member where
  name : Path
  kind : Kind
  deriving DecidableEq, Repr

/-- `gettarinfo`: a further name of a file is a link to its first; a socket has no member. -/
def gettarinfo (inodes : List (ℕ × Path)) : Stat → Option Kind
  | .dir => some .dir
  | .file inode content =>
    match inodes.lookup inode with
    | some first => some (.hard first)
    | none => some (.reg content)
  | .sole content => some (.reg content)
  | .link target => some (.sym target)
  | .special .socket => none
  | .special _ => some .special

/-- `TarFile.inodes` after a path. -/
def noteInode (inodes : List (ℕ × Path)) (arcname : Path) : Stat → List (ℕ × Path)
  | .file inode _ =>
    if (inodes.lookup inode).isSome then inodes else (inode, arcname) :: inodes
  | _ => inodes

/-- `TarFile.add` of each path in turn. -/
def addAll : List (ℕ × Path) → List (Path × Stat) → List Member
  | _, [] => []
  | inodes, (arcname, stat) :: items =>
    ((gettarinfo inodes stat).toList.map (Member.mk arcname)) ++
      addAll (noteInode inodes arcname stat) items

/-- What the releases of `tarfile` do in their own ways: whether link targets are normalised, and
whether a path that runs into a loop of links counts as inside. -/
structure Filter where
  normalizes : Bool
  onLoop : Path → List String → Bool

def normStep (parts : List String) (part : String) : List String :=
  if part = ".." ∧ parts ≠ [] ∧ parts.getLast? ≠ some ".." then parts.dropLast
  else parts ++ [part]

/-- `os.path.normpath` of a relative path. -/
def normpath (target : String) : String :=
  let parts := (targetParts target).foldl normStep []
  if parts = [] then "." else String.intercalate "/" parts

/-- The target of a link that the filter lets through. -/
def Filter.linkname (filter : Filter) (target : String) : String :=
  if filter.normalizes then normpath target else target

/-- A directory as a disk holds it: a file's names share its inode and so its content. -/
structure Disk where
  rooted : Rooted
  inode : Path → ℕ
  named : ∀ p n, rooted.tree.get? p = some n → ∀ part ∈ p, part ≠ ".."
  shared : ∀ p q content content' mtime mtime', rooted.tree.get? p = some (.file content mtime) →
    rooted.tree.get? q = some (.file content' mtime') → inode p = inode q → content = content'

def Disk.stat (d : Disk) (p : Path) : Node → Stat
  | .dir => .dir
  | .file content _ => .file (d.inode p) content
  | .link target => .link target

def Disk.rows (d : Disk) : List (Path × Stat) :=
  d.rooted.tree.rows.map fun row => (row.1, d.stat row.1 row.2)

-- `place`: what stands around the directory extracted to; `fuel`: links followed before a loop
variable (filter : Filter) (place : Place) (fuel : ℕ)

/-- Whether `os.path.realpath` of a path stays in the directory extracted to. -/
def staysInside (t : Tree) (at_ : Path) (todo : List String) : Bool :=
  match follow place t (fuel + todo.length + 1) at_ todo with
  | .inside _ => true
  | .outside => false
  | .loop => filter.onLoop at_ todo

/-- What the filter asks of a symbolic link. -/
def letsLink (t : Tree) (name : Path) (target : String) : Bool :=
  !isAbs target && staysInside filter place fuel t name.dropLast (targetParts target)

/-- `tarfile.data_filter`; the name has no leading slash. -/
def dataFilter (t : Tree) (member : Member) : Option Member :=
  if staysInside filter place fuel t [] member.name then
    match member.kind with
    | .special => none
    | .sym target =>
      if letsLink filter place fuel t member.name target then
        some ⟨member.name, .sym (filter.linkname target)⟩
      else none
    | .hard linkname =>
      if staysInside filter place fuel t [] linkname then some member else none
    | _ => some member
  else none

def makedir (t : Tree) (p : Path) : Option Tree :=
  match t.get? p with
  | none => some (put t p .dir)
  | some .dir => some t
  | _ => none

/-- The directories above a path, the uppermost first. -/
def upper (p : Path) : List Path := p.dropLast.inits.drop 1

/-- A file does not replace a directory; no archive here writes through a link. -/
def makefile (t : Tree) (p : Path) (content : Bytes) : Option Tree :=
  match t.get? p with
  | none | some (.file _ _) => some (put t p (.file content 0))
  | _ => none

/-- `TarFile.getmember`, the last of that name. -/
def getmember (members : List Member) (name : Path) : Option Member :=
  members.reverse.find? fun member => member.name = name

/-- `TarFile._find_link_target`, when the file that a hard link names is not extracted. -/
def findLinkTarget (archive : List Member) (linkname : Path) : Option Bytes :=
  match getmember archive linkname with
  | some ⟨_, .reg content⟩ => some content
  | _ => none

/-- `TarFile._extract_member` -/
def makeMember (archive : List Member) (t : Tree) (member : Member) : Option Tree := do
  let t ← (upper member.name).foldlM makedir t
  match member.kind with
  | .dir => makedir t member.name
  | .reg content => makefile t member.name content
  | .sym target =>
    if t.get? member.name = some .dir then none else some (put t member.name (.link target))
  | .hard linkname =>
    match t.get? linkname with
    | some (.file content mtime) => some (put t member.name (.file content mtime))
    | none => (findLinkTarget archive linkname).bind (makefile t member.name)
    | _ => none
  | .special => none

def extractMember (archive : List Member) (t : Tree) (member : Member) : Option Tree :=
  (dataFilter filter place fuel t member).bind (makeMember archive t)

/-- `TarFile.extractall` of some members: what is extracted, and whether that is everything. -/
def extractFrom (archive : List Member) : Tree → List Member → Tree × Bool
  | t, [] => (t, true)
  | t, member :: members =>
    match extractMember filter place fuel archive t member with
    | some u => extractFrom archive u members
    | none => (t, false)

/-- `TarFile.extractall` -/
def extractall (t : Tree) (members : List Member) : Tree × Bool :=
  extractFrom filter place fuel members t members

/-- What the extraction makes of a path. -/
def Stat.node : Stat → Option Node
  | .dir => some .dir
  | .file _ content => some (.file content 0)
  | .sole content => some (.file content 0)
  | .link target => some (.link (filter.linkname target))
  | .special _ => none

/-- Whether the filter lets the member of a path through. -/
def lets (t : Tree) : Path × Stat → Bool
  | (p, .link target) => letsLink filter place fuel t p target
  | (_, .special .socket) => true
  | (_, .special _) => false
  | _ => true

def addDir (t : Tree) (p : Path) : Tree := if t.get? p = none then put t p .dir else t

/-- The tree with the directories above a path. -/
def grow (t : Tree) (p : Path) : Tree := (upper p).foldl addDir t

/-- The tree with what the extraction makes of a path. -/
def stage (t : Tree) : Path × Stat → Tree
  | (p, .dir) => addDir (grow t p) p
  | (p, .file _ content) => put (grow t p) p (.file content 0)
  | (p, .sole content) => put (grow t p) p (.file content 0)
  | (p, .link target) => put (grow t p) p (.link (filter.linkname target))
  | (_, .special _) => t

/-- An extraction, told by what was put into the archive. -/
def stageAll : Tree → List (Path × Stat) → Tree × Bool
  | t, [] => (t, true)
  | t, row :: rows =>
    if lets filter place fuel t row then stageAll (stage filter t row) rows else (t, false)

variable {filter place fuel}

theorem mem_drop_inits {α : Type*} {p q : List α} : q ∈ p.inits.drop 1 ↔ q <+: p ∧ q ≠ [] := by
  cases p with
  | nil =>
    rw [List.prefix_nil]
    simp
  | cons part rest =>
    change q ∈ rest.inits.map (part :: ·) ↔ _
    rw [List.mem_map]
    constructor
    · rintro ⟨r, hr, rfl⟩
      exact ⟨List.cons_prefix_cons.mpr ⟨rfl, (List.mem_inits _ _).mp hr⟩, List.cons_ne_nil _ _⟩
    · rintro ⟨hq, hne⟩
      obtain ⟨first, r, rfl⟩ := List.exists_cons_of_ne_nil hne
      obtain ⟨rfl, hr⟩ := List.cons_prefix_cons.mp hq
      exact ⟨r, (List.mem_inits _ _).mpr hr, rfl⟩

theorem mem_upper {p q : Path} : q ∈ upper p ↔ q <+: p.dropLast ∧ q ≠ [] := mem_drop_inits

theorem self_notMem_upper (p : Path) : p ∉ upper p := by
  intro h
  obtain ⟨hpre, hne⟩ := mem_upper.mp h
  have hlen := hpre.length_le
  have hpos := List.length_pos_iff.mpr hne
  rw [List.length_dropLast] at hlen
  omega

theorem get?_addDir (t : Tree) (p q : Path) : (addDir t p).get? q =
    if q = p ∧ t.get? q = none then some .dir else t.get? q := by
  rw [addDir]
  by_cases hqp : q = p
  · subst hqp
    by_cases hnone : t.get? q = none
    · simp only [hnone, if_true, get?_put, and_self]
    · simp only [hnone, if_false, and_false]
  · rw [if_neg (c := q = p ∧ _) fun h => hqp h.1]
    by_cases hnone : t.get? p = none
    · rw [if_pos hnone, get?_put, if_neg hqp]
    · rw [if_neg hnone]

theorem get?_foldl_addDir (ps : List Path) (t : Tree) (q : Path) : (ps.foldl addDir t).get? q =
    if q ∈ ps ∧ t.get? q = none then some .dir else t.get? q := by
  induction ps generalizing t with
  | nil => rw [if_neg fun h => List.not_mem_nil h.1, List.foldl_nil]
  | cons p ps ih =>
    rw [List.foldl_cons, ih, get?_addDir]
    simp only [List.mem_cons]
    generalize t.get? q = n
    cases n with
    | none =>
      by_cases hqp : q = p
      · simp only [hqp, and_self, if_true, reduceCtorEq, and_false, if_false, true_or]
      · simp only [hqp, false_and, if_false, false_or]
    | some n => simp only [reduceCtorEq, and_false, if_false]

theorem get?_grow (t : Tree) (p q : Path) : (grow t p).get? q =
    if q ∈ upper p ∧ t.get? q = none then some .dir else t.get? q := get?_foldl_addDir _ _ _

theorem makedir_eq {t : Tree} {p : Path} (h : t.get? p = none ∨ t.get? p = some .dir) :
    makedir t p = some (addDir t p) := by
  rw [makedir, addDir]
  rcases h with h | h
  · rw [h, if_pos rfl]
  · rw [h, if_neg (Option.some_ne_none _)]

theorem makedirs_eq {t : Tree} {ps : List Path}
    (h : ∀ q ∈ ps, t.get? q = none ∨ t.get? q = some .dir) :
    ps.foldlM makedir t = some (ps.foldl addDir t) := by
  induction ps generalizing t with
  | nil => rfl
  | cons p ps ih =>
    have hrest : ∀ q ∈ ps, (addDir t p).get? q = none ∨ (addDir t p).get? q = some .dir := by
      intro q hq
      rw [get?_addDir]
      split
      · exact Or.inr rfl
      · exact h q (List.mem_cons_of_mem _ hq)
    rw [List.foldlM_cons, makedir_eq (h p List.mem_cons_self)]
    exact ih hrest

/-- A path of names without a link on it leads to itself. -/
theorem follow_plain {t : Tree} {at_ : Path} {todo : List String} {n : ℕ}
    (hnamed : ∀ part ∈ todo, part ≠ "..")
    (hplain : ∀ q, q <+: todo → q ≠ [] → ∀ target, t.get? (at_ ++ q) ≠ some (.link target))
    (hn : todo.length < n) : follow place t n at_ todo = .inside (at_ ++ todo) := by
  induction todo generalizing at_ n with
  | nil =>
    obtain ⟨n, rfl⟩ := Nat.exists_eq_succ_of_ne_zero (Nat.ne_zero_of_lt hn)
    rw [follow, List.append_nil]
  | cons part todo ih =>
    obtain ⟨n, rfl⟩ := Nat.exists_eq_succ_of_ne_zero (Nat.ne_zero_of_lt hn)
    have hhead := hplain [part] (List.prefix_append [part] todo) (List.cons_ne_nil _ _)
    have hrest : follow place t n (at_ ++ [part]) todo = .inside (at_ ++ [part] ++ todo) := ih
      (fun q hq => hnamed q (List.mem_cons_of_mem _ hq))
      (fun q hq hne target => by
        rw [List.append_assoc]
        exact hplain _ (List.cons_prefix_cons.mpr ⟨rfl, hq⟩) (List.cons_ne_nil _ _) target)
      (Nat.lt_of_succ_lt_succ hn)
    rw [follow, if_neg (hnamed part List.mem_cons_self)]
    split
    · rename_i target htarget
      exact absurd htarget (hhead target)
    · rw [hrest, List.append_assoc, List.singleton_append]

/-- What there is to extract: names that stand in directories. -/
structure Wanted (goal : Path → Option Node) : Prop where
  named : ∀ p n, goal p = some n → ∀ part ∈ p, part ≠ ".."
  closed : ∀ p n q, goal p = some n → q ∈ upper p → goal q = some .dir

/-- Rows that are written to be extracted as wanted. -/
structure Writes (filter : Filter) (goal : Path → Option Node) (rows : List (Path × Stat)) :
    Prop where
  wanted : ∀ row ∈ rows, ∀ n, row.2.node filter = some n → goal row.1 = some n
  shared : ∀ p q inode content content', (p, .file inode content) ∈ rows →
    (q, .file inode content') ∈ rows → content = content'
  nodup : (rows.map Prod.fst).Nodup

/-- Between two members: what is there is wanted, what is to come is not there, and the names that
links may use are files of the same content. -/
structure Ready (filter : Filter) (goal : Path → Option Node) (inodes : List (ℕ × Path))
    (rows : List (Path × Stat)) (t : Tree) : Prop where
  agrees : ∀ q, t.get? q = none ∨ t.get? q = goal q
  fresh : ∀ row ∈ rows, ∀ n, row.2.node filter = some n → n ≠ .dir → t.get? row.1 = none
  known : ∀ inode first, inodes.lookup inode = some first →
    ∃ content, t.get? first = some (.file content 0) ∧
      ∀ p content', (p, .file inode content') ∈ rows → content' = content

theorem Writes.tail {goal : Path → Option Node} {row : Path × Stat} {rows : List (Path × Stat)}
    (h : Writes filter goal (row :: rows)) : Writes filter goal rows where
  wanted := fun r hr => h.wanted r (List.mem_cons_of_mem _ hr)
  shared := fun p q inode c d hp hq =>
    h.shared p q inode c d (List.mem_cons_of_mem _ hp) (List.mem_cons_of_mem _ hq)
  nodup := (List.nodup_cons.mp h.nodup).2

theorem eq_or_mem_upper {p q : Path} (h : q <+: p) (hne : q ≠ []) : q = p ∨ q ∈ upper p := by
  by_cases hq : q = p
  · exact Or.inl hq
  · right
    obtain ⟨rest, rfl⟩ := h
    have hrest : rest ≠ [] := by
      rintro rfl
      exact hq (List.append_nil q).symm
    rw [mem_upper, List.dropLast_append_of_ne_nil hrest]
    exact ⟨List.prefix_append _ _, hne⟩

section Extract

variable {goal : Path → Option Node} (hgoal : Wanted goal) {t : Tree}
  (hagrees : ∀ q, t.get? q = none ∨ t.get? q = goal q)
include hgoal hagrees

theorem upper_ready {p : Path} {n : Node} (hp : goal p = some n) :
    ∀ q ∈ upper p, t.get? q = none ∨ t.get? q = some .dir := by
  intro q hq
  rcases hagrees q with h | h
  · exact Or.inl h
  · exact Or.inr (h.trans (hgoal.closed p n q hp hq))

theorem staysInside_of {p : Path} {n : Node} (hp : goal p = some n)
    (hplain : ∀ target, t.get? p ≠ some (.link target)) :
    staysInside filter place fuel t [] p = true := by
  have hfollow : follow place t (fuel + p.length + 1) [] p = .inside ([] ++ p) := by
    refine follow_plain (hgoal.named p n hp) (fun q hq hne target => ?_) (by omega)
    rw [List.nil_append]
    rcases eq_or_mem_upper hq hne with rfl | hq
    · exact hplain target
    · rcases upper_ready hgoal hagrees hp q hq with h | h <;> rw [h] <;> simp
  rw [staysInside, hfollow]

theorem makedirs_upper {p : Path} {n : Node} (hp : goal p = some n) :
    (upper p).foldlM makedir t = some (grow t p) :=
  makedirs_eq (upper_ready hgoal hagrees hp)

omit hgoal hagrees in
theorem get?_grow_self (t : Tree) (p : Path) : (grow t p).get? p = t.get? p := by
  rw [get?_grow, if_neg fun h => self_notMem_upper p h.1]

omit hgoal in
theorem get?_stage {p : Path} {stat : Stat} {n : Node} (hn : stat.node filter = some n)
    (hp : goal p = some n) (q : Path) : (stage filter t (p, stat)).get? q =
      if q = p then some n else if q ∈ upper p ∧ t.get? q = none then some .dir
        else t.get? q := by
  cases stat with
  | dir =>
    cases hn
    rw [stage, get?_addDir]
    by_cases hq : q = p
    · subst hq
      rw [get?_grow_self, if_pos rfl]
      rcases hagrees q with h | h
      · rw [if_pos ⟨rfl, h⟩]
      · rw [h, hp, if_neg (by simp)]
    · rw [if_neg (c := q = p ∧ _) fun h => hq h.1, if_neg hq, get?_grow]
  | file inode content =>
    cases hn
    rw [stage, get?_put, get?_grow]
  | sole content =>
    cases hn
    rw [stage, get?_put, get?_grow]
  | link target =>
    cases hn
    rw [stage, get?_put, get?_grow]
  | special kind => cases hn

theorem agrees_stage {p : Path} {stat : Stat} (hp : ∀ n, stat.node filter = some n →
    goal p = some n) (q : Path) : (stage filter t (p, stat)).get? q = none ∨
      (stage filter t (p, stat)).get? q = goal q := by
  cases hnode : stat.node filter with
  | none =>
    cases stat with
    | special kind => exact hagrees q
    | _ => cases hnode
  | some n =>
    rw [get?_stage hagrees hnode (hp n hnode)]
    split
    · rename_i hq
      exact Or.inr (hq ▸ (hp n hnode).symm)
    · split
      · rename_i hup
        exact Or.inr (hgoal.closed p n q (hp n hnode) hup.1).symm
      · exact hagrees q

omit hgoal in
theorem stage_keeps {p q : Path} {stat : Stat} {n : Node} (hp : ∀ n, stat.node filter = some n →
    goal p = some n) (hq : t.get? q = some n) :
    (stage filter t (p, stat)).get? q = some n := by
  cases hnode : stat.node filter with
  | none =>
    cases stat with
    | special kind => exact hq
    | _ => cases hnode
  | some m =>
    have hthere : ¬(q ∈ upper p ∧ t.get? q = none) := by
      rw [hq]
      simp
    rw [get?_stage hagrees hnode (hp m hnode), if_neg hthere, hq]
    split
    · rename_i heq
      rcases hagrees q with h | h
      · rw [hq] at h
        cases h
      · rw [← hp m hnode, ← heq, ← h, hq]
    · rfl

/-- The tree after all rows: nothing but what is wanted, what was there, and every row. -/
theorem staged (rows : List (Path × Stat))
    (hwanted : ∀ row ∈ rows, ∀ n, row.2.node filter = some n → goal row.1 = some n) :
    (∀ q, (rows.foldl (stage filter) t).get? q = none ∨
      (rows.foldl (stage filter) t).get? q = goal q) ∧
    (∀ q n, t.get? q = some n → (rows.foldl (stage filter) t).get? q = some n) ∧
    ∀ row ∈ rows, ∀ n, row.2.node filter = some n →
      (rows.foldl (stage filter) t).get? row.1 = some n := by
  induction rows generalizing t with
  | nil => exact ⟨hagrees, fun _ _ h => h, fun row hrow => absurd hrow List.not_mem_nil⟩
  | cons row rows ih =>
    obtain ⟨p, stat⟩ := row
    obtain ⟨hhead, hrest⟩ := List.forall_mem_cons.mp hwanted
    obtain ⟨hall, hkept, hrows⟩ := ih (agrees_stage hgoal hagrees hhead) hrest
    rw [List.foldl_cons]
    refine ⟨hall, fun q n hq => hkept q n (stage_keeps hagrees hhead hq),
      List.forall_mem_cons.mpr ⟨fun n hn => ?_, hrows⟩⟩
    refine hkept p n ?_
    rw [get?_stage hagrees hn (hhead n hn), if_pos rfl]

end Extract

theorem stageAll_fst {rows : List (Path × Stat)} {t : Tree}
    (h : (stageAll filter place fuel t rows).2 = true) :
    (stageAll filter place fuel t rows).1 = rows.foldl (stage filter) t := by
  induction rows generalizing t with
  | nil => rfl
  | cons row rows ih =>
    rw [stageAll] at h ⊢
    split at h
    · rename_i hlets
      rw [if_pos hlets]
      exact ih h
    · cases h

/-- All is extracted just if the filter lets every path through after those before it. -/
theorem stageAll_snd {rows : List (Path × Stat)} {t : Tree} :
    (stageAll filter place fuel t rows).2 = true ↔ ∀ before row after,
      rows = before ++ row :: after →
      lets filter place fuel (before.foldl (stage filter) t) row = true := by
  induction rows generalizing t with
  | nil =>
    refine ⟨fun _ before row after h => ?_, fun _ => rfl⟩
    exact absurd h (by simp)
  | cons first rows ih =>
    rw [stageAll]
    constructor
    · intro h before row after hrows
      split at h
      · rename_i hlets
        cases before with
        | nil =>
          obtain ⟨rfl, -⟩ := List.cons.inj hrows
          exact hlets
        | cons other before =>
          rw [List.cons_append] at hrows
          obtain ⟨rfl, htail⟩ := List.cons.inj hrows
          exact ih.mp h before row after htail
      · cases h
    · intro h
      have hfirst : lets filter place fuel t first = true := h [] first rows rfl
      rw [if_pos hfirst]
      refine ih.mpr fun before row after hrows => ?_
      exact h (first :: before) row after (by rw [hrows, List.cons_append])

/-- The name under which the archive has a file first. -/
def firstName (rows : List (Path × Stat)) (inode : ℕ) : Option Path :=
  match rows with
  | [] => none
  | (p, .file here _) :: rows => if here = inode then some p else firstName rows inode
  | _ :: rows => firstName rows inode

/-- `TarFile.inodes` after some paths. -/
def noted (inodes : List (ℕ × Path)) (rows : List (Path × Stat)) : List (ℕ × Path) :=
  rows.foldl (fun inodes row => noteInode inodes row.1 row.2) inodes

theorem Disk.mem_rows {d : Disk} {p : Path} {stat : Stat} :
    (p, stat) ∈ d.rows ↔ ∃ n, d.rooted.tree.get? p = some n ∧ d.stat p n = stat := by
  rw [Disk.rows, List.mem_map]
  constructor
  · rintro ⟨⟨q, n⟩, hrow, heq⟩
    cases heq
    exact ⟨n, Table.get?_eq_some.mpr hrow, rfl⟩
  · rintro ⟨n, hn, rfl⟩
    exact ⟨(p, n), Table.get?_eq_some.mp hn, rfl⟩

theorem Disk.rows_keys (d : Disk) : d.rows.map Prod.fst = d.rooted.tree.rows.map Prod.fst := by
  rw [Disk.rows, List.map_map]
  rfl

/-- What an extraction makes of a node. -/
def Filter.image (filter : Filter) : Node → Node
  | .dir => .dir
  | .file content _ => .file content 0
  | .link target => .link (filter.linkname target)

theorem Disk.node_stat (d : Disk) (p : Path) (n : Node) :
    (d.stat p n).node filter = some (filter.image n) := by
  cases n <;> rfl

theorem Disk.upper_dir (d : Disk) {p q : Path} {n : Node} (hn : d.rooted.tree.get? p = some n)
    (hq : q ∈ upper p) : d.rooted.tree.get? q = some .dir := by
  obtain ⟨hpre, hne⟩ := mem_upper.mp hq
  refine d.rooted.ancestor hn (hpre.trans (List.dropLast_prefix p)) hne ?_
  rintro rfl
  exact self_notMem_upper q hq

section Run

variable {goal : Path → Option Node} (hgoal : Wanted goal) {inodes : List (ℕ × Path)}
  {archive : List Member} {rows : List (Path × Stat)} {t : Tree} {p : Path} {stat : Stat}
include hgoal

theorem extractMember_eq {kind : Kind} (hwrites : Writes filter goal ((p, stat) :: rows))
    (hready : Ready filter goal inodes ((p, stat) :: rows) t)
    (hkind : gettarinfo inodes stat = some kind) :
    extractMember filter place fuel archive t ⟨p, kind⟩ =
      if lets filter place fuel t (p, stat) then some (stage filter t (p, stat)) else none := by
  have hagrees := hready.agrees
  cases stat with
  | dir =>
    cases hkind
    have hp : goal p = some .dir := hwrites.wanted _ List.mem_cons_self _ rfl
    have hhere : t.get? p = none ∨ t.get? p = some .dir := by
      rcases hagrees p with h | h
      · exact Or.inl h
      · exact Or.inr (h.trans hp)
    have hinside : staysInside filter place fuel t [] p = true :=
      staysInside_of hgoal hagrees hp fun target => by rcases hhere with h | h <;> rw [h] <;> simp
    have hmade : makedir (grow t p) p = some (addDir (grow t p) p) :=
      makedir_eq (by rwa [get?_grow_self])
    simp only [extractMember, dataFilter, hinside, if_true, Option.bind_some, makeMember,
      makedirs_upper hgoal hagrees hp, hmade, lets, stage, Option.bind_eq_bind]
  | file inode content =>
    have hp : goal p = some (.file content 0) := hwrites.wanted _ List.mem_cons_self _ rfl
    have hnone : t.get? p = none := hready.fresh _ List.mem_cons_self _ rfl (by simp)
    have hinside : staysInside filter place fuel t [] p = true :=
      staysInside_of hgoal hagrees hp fun target => by rw [hnone]; simp
    rw [gettarinfo] at hkind
    split at hkind
    · rename_i first hfirst
      cases hkind
      obtain ⟨known, hfile, hsame⟩ := hready.known inode first hfirst
      have hcontent : content = known := hsame p content List.mem_cons_self
      have hwanted : goal first = some (.file known 0) := by
        rcases hagrees first with h | h
        · rw [hfile] at h
          cases h
        · exact h.symm.trans hfile
      have hlink : staysInside filter place fuel t [] first = true :=
        staysInside_of hgoal hagrees hwanted fun target => by rw [hfile]; simp
      have hgrown : (grow t p).get? first = some (.file known 0) := by
        rw [get?_grow, if_neg (by rw [hfile]; simp), hfile]
      simp only [extractMember, dataFilter, hinside, hlink, if_true, Option.bind_some, makeMember,
        makedirs_upper hgoal hagrees hp, hgrown, lets, stage, Option.bind_eq_bind, hcontent]
    · cases hkind
      have hmade : makefile (grow t p) p content = some (put (grow t p) p (.file content 0)) := by
        rw [makefile, get?_grow_self, hnone]
      simp only [extractMember, dataFilter, hinside, if_true, Option.bind_some, makeMember,
        makedirs_upper hgoal hagrees hp, hmade, lets, stage, Option.bind_eq_bind]
  | sole content =>
    cases hkind
    have hp : goal p = some (.file content 0) := hwrites.wanted _ List.mem_cons_self _ rfl
    have hnone : t.get? p = none := hready.fresh _ List.mem_cons_self _ rfl (by simp)
    have hinside : staysInside filter place fuel t [] p = true :=
      staysInside_of hgoal hagrees hp fun target => by rw [hnone]; simp
    have hmade : makefile (grow t p) p content = some (put (grow t p) p (.file content 0)) := by
      rw [makefile, get?_grow_self, hnone]
    simp only [extractMember, dataFilter, hinside, if_true, Option.bind_some, makeMember,
      makedirs_upper hgoal hagrees hp, hmade, lets, stage, Option.bind_eq_bind]
  | link target =>
    cases hkind
    have hp := hwrites.wanted _ List.mem_cons_self _ rfl
    have hnone : t.get? p = none := hready.fresh _ List.mem_cons_self _ rfl (by simp)
    have hinside : staysInside filter place fuel t [] p = true :=
      staysInside_of hgoal hagrees hp fun target => by rw [hnone]; simp
    have hfree : (grow t p).get? p ≠ some .dir := by rw [get?_grow_self, hnone]; simp
    cases hlets : letsLink filter place fuel t p target with
    | true =>
      simp only [extractMember, dataFilter, hinside, if_true, hlets, Option.bind_some, makeMember,
        makedirs_upper hgoal hagrees hp, hfree, if_false, lets, stage, Option.bind_eq_bind]
    | false =>
      simp only [extractMember, dataFilter, hinside, if_true, hlets, Bool.false_eq_true, if_false,
        Option.bind_none, lets]
  | special special =>
    cases special with
    | socket => cases hkind
    | fifo =>
      cases hkind
      simp only [extractMember, dataFilter, lets, ite_self, Option.bind_none, Bool.false_eq_true,
        if_false]
    | device =>
      cases hkind
      simp only [extractMember, dataFilter, lets, ite_self, Option.bind_none, Bool.false_eq_true,
        if_false]

theorem Ready.step (hwrites : Writes filter goal ((p, stat) :: rows))
    (hready : Ready filter goal inodes ((p, stat) :: rows) t) :
    Ready filter goal (noteInode inodes p stat) rows (stage filter t (p, stat)) := by
  have hagrees := hready.agrees
  cases hnode : stat.node filter with
  | none =>
    cases stat with
    | special kind =>
      exact ⟨hagrees, fun row hrow => hready.fresh row (List.mem_cons_of_mem _ hrow),
        fun inode first h => by
          obtain ⟨content, hfile, hsame⟩ := hready.known inode first h
          exact ⟨content, hfile, fun q c hq => hsame q c (List.mem_cons_of_mem _ hq)⟩⟩
    | _ => cases hnode
  | some n =>
    have hp : goal p = some n := hwrites.wanted _ List.mem_cons_self n hnode
    have hget := get?_stage hagrees hnode hp
    refine ⟨fun q => ?_, fun row hrow m hm hdir => ?_, fun inode first h => ?_⟩
    · refine agrees_stage hgoal hagrees (fun m hm => ?_) q
      exact hwrites.wanted _ List.mem_cons_self m hm
    · have hne : row.1 ≠ p := fun heq =>
        (List.nodup_cons.mp hwrites.nodup).1 (List.mem_map.mpr ⟨row, hrow, heq⟩)
      have hrow' := hwrites.wanted _ (List.mem_cons_of_mem _ hrow) m hm
      have hup : row.1 ∉ upper p := fun hup => by
        have hdirs := hgoal.closed p n _ hp hup
        rw [hrow'] at hdirs
        exact hdir (Option.some.inj hdirs)
      rw [hget, if_neg hne, if_neg fun h => hup h.1]
      exact hready.fresh row (List.mem_cons_of_mem _ hrow) m hm hdir
    · have hold : ∀ first, inodes.lookup inode = some first →
          ∃ content, (stage filter t (p, stat)).get? first = some (.file content 0) ∧
            ∀ q c, (q, Stat.file inode c) ∈ rows → c = content := by
        intro first h
        obtain ⟨content, hfile, hsame⟩ := hready.known inode first h
        refine ⟨content, ?_, fun q c hq => hsame q c (List.mem_cons_of_mem _ hq)⟩
        exact stage_keeps hagrees (hwrites.wanted _ List.mem_cons_self) hfile
      cases stat with
      | file here content =>
        rw [noteInode] at h
        split at h
        · exact hold first h
        · rename_i hnew
          rw [List.lookup_cons] at h
          split at h
          · rename_i heq
            cases h
            cases eq_of_beq heq
            cases hnode
            refine ⟨content, by rw [hget, if_pos rfl], fun q c hq => ?_⟩
            exact hwrites.shared q p inode c content (List.mem_cons_of_mem _ hq) List.mem_cons_self
          · exact hold first h
      | dir => exact hold first h
      | sole content => exact hold first h
      | link target => exact hold first h
      | special kind => exact hold first h

/-- Extracting what was added to an archive makes the added paths again, in their order, up to the
first member that the filter refuses. -/
theorem extractFrom_addAll (hwrites : Writes filter goal rows)
    (hready : Ready filter goal inodes rows t) :
    extractFrom filter place fuel archive t (addAll inodes rows) =
      stageAll filter place fuel t rows := by
  induction rows generalizing inodes t with
  | nil => rfl
  | cons row rows ih =>
    obtain ⟨p, stat⟩ := row
    have hnext := ih hwrites.tail (hready.step hgoal hwrites)
    rw [addAll, stageAll]
    cases hkind : gettarinfo inodes stat with
    | some kind =>
      rw [Option.toList_some, List.map_cons, List.map_nil, List.singleton_append, extractFrom,
        extractMember_eq hgoal hwrites hready hkind]
      cases lets filter place fuel t (p, stat) with
      | true => exact hnext
      | false => rfl
    | none =>
      have hsocket : stat = .special .socket := by
        cases stat with
        | special kind => cases kind <;> first | rfl | cases hkind
        | file inode content =>
          rw [gettarinfo] at hkind
          split at hkind <;> cases hkind
        | _ => cases hkind
      subst hsocket
      exact hnext

end Run

end TarArchive
