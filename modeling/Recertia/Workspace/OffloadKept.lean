import Recertia.Workspace.Offload

/-! Which cuts of a pause, and of the resumes after it, leave a workspace that can be resumed. -/
namespace Recertia.Offload

open LinkTree TarArchive

/-- What the extraction of a packed workdir makes below the staging directory. -/
def wanted (filter : Filter) (d : Workdir) : Path → Option Node
  | [] => none
  | first :: p =>
    if first = "tree" then
      if p = [] then some .dir else (d.disk.rooted.tree.get? p).map filter.image
    else none

theorem wanted_tree (filter : Filter) (d : Workdir) {p : Path} (hp : p ≠ []) :
    wanted filter d ("tree" :: p) = (d.disk.rooted.tree.get? p).map filter.image := by
  rw [wanted, if_pos rfl, if_neg hp]

theorem wanted_eq_some {filter : Filter} {d : Workdir} {q : Path} {n : Node}
    (h : wanted filter d q = some n) : q = ["tree"] ∧ n = .dir ∨
      ∃ p m, q = "tree" :: p ∧ p ≠ [] ∧ d.disk.rooted.tree.get? p = some m ∧
        filter.image m = n := by
  cases q with
  | nil => cases h
  | cons first p =>
    rw [wanted] at h
    split at h
    · rename_i hfirst
      split at h
      · rename_i hp
        left
        exact ⟨by rw [hfirst, hp], (Option.some.inj h).symm⟩
      · rename_i hp
        obtain ⟨m, hm, hn⟩ := Option.map_eq_some_iff.mp h
        exact Or.inr ⟨p, m, by rw [hfirst], hp, hm, hn⟩
    · cases h

theorem wanted_wanted (filter : Filter) (d : Workdir) : Wanted (wanted filter d) where
  named := by
    intro q n hq part hpart
    rcases wanted_eq_some hq with ⟨rfl, -⟩ | ⟨p, m, rfl, -, hm, -⟩
    · rw [List.mem_singleton.mp hpart]
      decide
    · rcases List.mem_cons.mp hpart with rfl | hpart
      · decide
      · exact d.disk.named p m hm part hpart
  closed := by
    intro q n r hq hr
    obtain ⟨hpre, hne⟩ := mem_upper.mp hr
    rcases wanted_eq_some hq with ⟨rfl, -⟩ | ⟨p, m, rfl, hp, hm, -⟩
    · exact absurd (List.prefix_nil.mp hpre) hne
    · rw [List.dropLast_cons_of_ne_nil hp] at hpre
      obtain ⟨first, rest, rfl⟩ := List.exists_cons_of_ne_nil hne
      obtain ⟨rfl, hrest⟩ := List.cons_prefix_cons.mp hpre
      by_cases hnil : rest = []
      · rw [hnil, wanted, if_pos rfl, if_pos rfl]
      · rw [wanted_tree filter d hnil, d.disk.upper_dir hm (mem_upper.mpr ⟨hrest, hnil⟩)]
        rfl

theorem Workdir.mem_rows {d : Workdir} {p : Path} {stat : Stat} : (p, stat) ∈ d.rows ↔
    (∃ n, d.disk.rooted.tree.get? p = some n ∧ d.disk.stat p n = stat) ∨
      ∃ kind, d.special.get? p = some kind ∧ stat = .special kind := by
  rw [Workdir.rows, List.mem_append, Disk.mem_rows, List.mem_map]
  refine or_congr Iff.rfl ⟨?_, ?_⟩
  · rintro ⟨⟨q, kind⟩, hrow, heq⟩
    cases heq
    exact ⟨kind, Table.get?_eq_some.mpr hrow, rfl⟩
  · rintro ⟨kind, hkind, rfl⟩
    exact ⟨(p, kind), Table.get?_eq_some.mp hkind, rfl⟩

theorem Workdir.mem_packed {d : Workdir} {row : Path × Stat} : row ∈ d.packed ↔
    row = (["tree"], .dir) ∨ ∃ p stat, (p, stat) ∈ d.rows ∧ row = ("tree" :: p, stat) := by
  rw [Workdir.packed, List.mem_cons, List.mem_map]
  refine or_congr Iff.rfl ⟨?_, ?_⟩
  · rintro ⟨⟨p, stat⟩, hrow, rfl⟩
    exact ⟨p, stat, (List.perm_insertionSort _ _).mem_iff.mp hrow, rfl⟩
  · rintro ⟨p, stat, hrow, rfl⟩
    exact ⟨(p, stat), (List.perm_insertionSort _ _).mem_iff.mpr hrow, rfl⟩

theorem Workdir.ne_nil_of_mem_rows {d : Workdir} {p : Path} {stat : Stat}
    (h : (p, stat) ∈ d.rows) : p ≠ [] := by
  rcases Workdir.mem_rows.mp h with ⟨n, hn, -⟩ | ⟨kind, hkind, -⟩
  · exact d.disk.rooted.proper p n hn
  · exact d.proper p kind hkind

theorem Workdir.rows_nodup (d : Workdir) : (d.rows.map Prod.fst).Nodup := by
  have hspecial : (d.special.rows.map fun row => (row.1, Stat.special row.2)).map Prod.fst =
      d.special.rows.map Prod.fst := by
    rw [List.map_map]
    rfl
  rw [Workdir.rows, List.map_append, Disk.rows_keys, hspecial]
  refine List.nodup_append.mpr ⟨d.disk.rooted.tree.nodup, d.special.nodup, fun p hp q hq heq => ?_⟩
  subst heq
  obtain ⟨kind, hkind⟩ := Table.mem_keys.mp hq
  have hnone := d.apart p kind (Table.get?_eq_some.mpr hkind)
  exact Table.get?_eq_none.mp hnone hp

theorem writes_packed (filter : Filter) (d : Workdir) :
    Writes filter (wanted filter d) d.packed where
  wanted := by
    rintro row hrow n hn
    rcases Workdir.mem_packed.mp hrow with rfl | ⟨p, stat, hstat, rfl⟩
    · exact hn
    · rw [wanted_tree filter d (Workdir.ne_nil_of_mem_rows hstat)]
      rcases Workdir.mem_rows.mp hstat with ⟨m, hm, rfl⟩ | ⟨kind, hkind, rfl⟩
      · rw [hm, Option.map_some, ← hn, d.disk.node_stat]
      · cases hn
  shared := by
    have hfile : ∀ p inode content, (p, Stat.file inode content) ∈ d.packed →
        ∃ p' mtime, d.disk.rooted.tree.get? p' = some (.file content mtime) ∧
          d.disk.inode p' = inode := by
      intro p inode content h
      rcases Workdir.mem_packed.mp h with heq | ⟨p', stat, hstat, heq⟩
      · cases heq
      · cases heq
        rcases Workdir.mem_rows.mp hstat with ⟨m, hm, heq⟩ | ⟨kind, hkind, heq⟩
        · cases m with
          | file content' mtime =>
            cases heq
            exact ⟨p', mtime, hm, rfl⟩
          | dir => cases heq
          | link target => cases heq
        · cases heq
    intro p q inode content content' hp hq
    obtain ⟨p', mtime, hp', hinode⟩ := hfile p inode content hp
    obtain ⟨q', mtime', hq', hinode'⟩ := hfile q inode content' hq
    exact d.disk.shared p' q' _ _ _ _ hp' hq' (hinode.trans hinode'.symm)
  nodup := by
    have hkeys : d.packed.map Prod.fst = ["tree"] ::
        ((d.rows.insertionSort fun a b => a.1 ≤ b.1).map Prod.fst).map ("tree" :: ·) := by
      rw [Workdir.packed, List.map_cons, List.map_map, List.map_map]
      rfl
    have hsorted : ((d.rows.insertionSort fun a b => a.1 ≤ b.1).map Prod.fst).Nodup :=
      ((List.perm_insertionSort _ _).map Prod.fst).nodup_iff.mpr d.rows_nodup
    rw [hkeys, List.nodup_cons]
    refine ⟨fun h => ?_, hsorted.map fun a b h => (List.cons.inj h).2⟩
    obtain ⟨p, hp, heq⟩ := List.mem_map.mp h
    obtain ⟨⟨q, stat⟩, hrow, rfl⟩ := List.mem_map.mp hp
    have hmem : (q, stat) ∈ d.rows := (List.perm_insertionSort _ _).mem_iff.mp hrow
    exact Workdir.ne_nil_of_mem_rows hmem (List.cons.inj heq).2

/-- What stands before a member of the archive, extracted. -/
def stagedBefore (filter : Filter) (before : List (Path × Stat)) : Tree :=
  before.foldl (stage filter) .empty

section Extraction

variable (filter : Filter) (place : Place) (fuel : ℕ) (d : Workdir)

theorem extract_packed : extractall filter place fuel .empty (addAll [] d.packed) =
    stageAll filter place fuel .empty d.packed :=
  extractFrom_addAll (wanted_wanted filter d) (writes_packed filter d)
    ⟨fun _ => Or.inl rfl, fun _ _ _ _ _ => rfl, fun _ _ h => absurd h.symm (Option.some_ne_none _)⟩

theorem get?_extracted (h : (extractall filter place fuel .empty (addAll [] d.packed)).2 = true)
    (q : Path) : (extractall filter place fuel .empty (addAll [] d.packed)).1.get? q =
      wanted filter d q := by
  rw [extract_packed] at h ⊢
  obtain ⟨hagrees, -, hrows⟩ := staged (wanted_wanted filter d)
    (t := Table.empty) (fun _ => Or.inl rfl) d.packed (writes_packed filter d).wanted
  rw [stageAll_fst h]
  cases hq : wanted filter d q with
  | none =>
    rcases hagrees q with hnone | hsame
    · exact hnone
    · exact hsame.trans hq
  | some n =>
    rcases wanted_eq_some hq with ⟨rfl, rfl⟩ | ⟨p, m, rfl, hp, hm, rfl⟩
    · exact hrows _ (Workdir.mem_packed.mpr (Or.inl rfl)) .dir rfl
    · have hrow : ("tree" :: p, d.disk.stat p m) ∈ d.packed :=
        Workdir.mem_packed.mpr (Or.inr ⟨p, _, Workdir.mem_rows.mpr (Or.inl ⟨m, hm, rfl⟩), rfl⟩)
      exact hrows _ hrow _ (d.disk.node_stat p m)

/-- The workdir that a restore of the archive leaves. -/
def unpacked (filter : Filter) (place : Place) (fuel : ℕ) (d : Workdir) : Contents :=
  ⟨subtree (extractall filter place fuel .empty (addAll [] d.packed)).1 "tree", .empty⟩

theorem unpacked_same (h : (extractall filter place fuel .empty (addAll [] d.packed)).2 = true) :
    (unpacked filter place fuel d).Same d.contents ↔ (∀ p, d.special.get? p = none) ∧
      ∀ p target, d.disk.rooted.tree.get? p = some (.link target) →
        filter.linkname target = target := by
  have hget : ∀ p, (unpacked filter place fuel d).tree.get? p =
      (d.disk.rooted.tree.get? p).map filter.image := by
    intro p
    rw [unpacked, get?_subtree, get?_extracted filter place fuel d h]
    split
    · rename_i hp
      cases hroot : d.disk.rooted.tree.get? p with
      | none => rfl
      | some n => exact absurd hp (d.disk.rooted.proper p n hroot)
    · rename_i hp
      exact wanted_tree filter d hp
  rw [Contents.Same]
  constructor
  · rintro ⟨htree, hspecial⟩
    refine ⟨fun p => (hspecial p).symm, fun p target hp => ?_⟩
    have hnode := htree p
    rw [hget, Workdir.contents, hp] at hnode
    exact Node.link.inj (Option.some.inj hnode)
  · rintro ⟨hspecial, htargets⟩
    refine ⟨fun p => ?_, fun p => (hspecial p).symm⟩
    rw [hget, Workdir.contents]
    cases hp : d.disk.rooted.tree.get? p with
    | none => rfl
    | some n =>
      cases n with
      | dir => rfl
      | file content mtime => rfl
      | link target =>
        have himage : filter.image (.link target) = .link target :=
          congrArg Node.link (htargets p target hp)
        rw [Option.map_some, himage]

/-- A workdir that comes back from its archive: no special files, and links that the filter lets
through, over what it has extracted by then, with the targets they have. -/
def Restorable (filter : Filter) (place : Place) (fuel : ℕ) (d : Workdir) : Prop :=
  (∀ p, d.special.get? p = none) ∧
  (∀ p target, d.disk.rooted.tree.get? p = some (.link target) →
    filter.linkname target = target) ∧
  ∀ before p target after, d.packed = before ++ (p, .link target) :: after →
    letsLink filter place fuel (stagedBefore filter before) p target = true

theorem restorable_iff : Restorable filter place fuel d ↔
    (extractall filter place fuel .empty (addAll [] d.packed)).2 = true ∧
      (unpacked filter place fuel d).Same d.contents := by
  constructor
  · rintro ⟨hspecial, htargets, hlets⟩
    have hall : (extractall filter place fuel .empty (addAll [] d.packed)).2 = true := by
      rw [extract_packed, stageAll_snd]
      intro before row after hpacked
      obtain ⟨p, stat⟩ := row
      cases stat with
      | dir => rfl
      | file inode content => rfl
      | sole content => rfl
      | link target => exact hlets before p target after hpacked
      | special kind =>
        have hrow : (p, Stat.special kind) ∈ d.packed := by
          rw [hpacked]
          exact List.mem_append_right _ List.mem_cons_self
        rcases Workdir.mem_packed.mp hrow with heq | ⟨q, stat, hstat, heq⟩
        · cases heq
        · cases heq
          rcases Workdir.mem_rows.mp hstat with ⟨m, -, heq⟩ | ⟨kind', hkind, -⟩
          · cases m <;> cases heq
          · rw [hspecial] at hkind
            cases hkind
    exact ⟨hall, (unpacked_same filter place fuel d hall).mpr ⟨hspecial, htargets⟩⟩
  · rintro ⟨hall, hsame⟩
    obtain ⟨hspecial, htargets⟩ := (unpacked_same filter place fuel d hall).mp hsame
    refine ⟨hspecial, htargets, fun before p target after hpacked => ?_⟩
    rw [extract_packed, stageAll_snd] at hall
    exact hall before (p, .link target) after hpacked

end Extraction

section Cuts

variable {Digest : Type} {s : Setting Digest} {d : Workdir}

/-- The workdir stands as it was and nothing says that it is packed. -/
def InPlace (d : Workdir) (w : World Digest) : Prop :=
  w.workdir = some d.contents ∧ w.sidecar = none ∧ w.memory = none

/-- Something of the workdir is removed and no sidecar can be read. -/
def Lost (d : Workdir) (w : World Digest) : Prop :=
  (∀ c, w.workdir = some c → ¬ c.Same d.contents) ∧
    (w.sidecar = none ∨ w.sidecar = some .torn) ∧ w.memory = none

def Setting.handle (s : Setting Digest) (d : Workdir) : Handle Digest := ⟨s.sha256 d.archive⟩

/-- Whether the archive of a workdir is extracted. -/
def Setting.extracts (s : Setting Digest) (d : Workdir) : Bool :=
  (extractall s.filter s.place s.fuel .empty (addAll [] d.packed)).2

def Setting.unpacked (s : Setting Digest) (d : Workdir) : Contents :=
  Offload.unpacked s.filter s.place s.fuel d

/-- The archive is there with its sidecar, or it is extracted for good. -/
structure Parked (s : Setting Digest) (d : Workdir) (w : World Digest) : Prop where
  archive : w.archive = some d.archive
  memory : w.memory = none ∨ w.memory = some (s.handle d)
  sidecar : w.sidecar = some (.handle (s.handle d)) ∨ w.sidecar = none ∧ w.memory = none ∧
    w.workdir = some (s.unpacked d) ∧ s.extracts d = true
  refused : s.extracts d = false → w.workdir = none

theorem not_same_without {c : Contents} {gone : List Path} {p : Path} (hp : p ∈ gone)
    (hthere : p ∈ c.paths) : ¬ (c.without gone).Same c := by
  rintro ⟨htree, hspecial⟩
  rcases List.mem_append.mp hthere with h | h
  · obtain ⟨n, hn⟩ := Table.mem_keys.mp h
    have hsome := Table.get?_eq_some.mpr hn
    have hsame := htree p
    rw [Contents.without, Table.get?_delete, hsome] at hsame
    simp [hp] at hsame
  · obtain ⟨kind, hkind⟩ := Table.mem_keys.mp h
    have hsome := Table.get?_eq_some.mpr hkind
    have hsame := hspecial p
    rw [Contents.without, Table.get?_delete, hsome] at hsame
    simp [hp] at hsame

theorem length_rmtree (c : Contents) : (rmtree s c).length = c.paths.length := by
  rw [rmtree, List.length_map, List.length_drop, List.length_inits, (s.order_perm c).length_eq]
  rfl

theorem not_same_rmtree {c c' : Contents} (h : c' ∈ rmtree s c) : ¬ c'.Same c := by
  obtain ⟨gone, hgone, rfl⟩ := List.mem_map.mp h
  obtain ⟨hpre, hne⟩ := mem_drop_inits.mp hgone
  obtain ⟨p, rest, rfl⟩ := List.exists_cons_of_ne_nil hne
  refine not_same_without List.mem_cons_self ((s.order_perm c).mem_iff.mp ?_)
  exact List.IsPrefix.subset hpre List.mem_cons_self

/-- A place in a list of three parts, the first of three entries. -/
theorem getElem?_parts {α : Type} {a b c x : α} {mid tail : List α} {k : ℕ}
    (h : ([a, b, c] ++ mid ++ tail)[k]? = some x) :
    k ≤ 2 ∧ x ∈ [a, b, c] ∨ 3 ≤ k ∧ k < 3 + mid.length ∧ x ∈ mid ∨
      ∃ j, k = 3 + mid.length + j ∧ tail[j]? = some x := by
  rw [List.append_assoc] at h
  by_cases hfirst : k < [a, b, c].length
  · rw [List.getElem?_append_left hfirst] at h
    have hk : k ≤ 2 := Nat.le_of_lt_succ hfirst
    exact Or.inl ⟨hk, List.mem_of_getElem? h⟩
  · rw [List.getElem?_append_right (Nat.le_of_not_lt hfirst)] at h
    have hthree : 3 ≤ k := Nat.le_of_not_lt hfirst
    have hsub : k - [a, b, c].length = k - 3 := rfl
    rw [hsub] at h
    right
    by_cases hmid : k - 3 < mid.length
    · rw [List.getElem?_append_left hmid] at h
      exact Or.inl ⟨hthree, by omega, List.mem_of_getElem? h⟩
    · rw [List.getElem?_append_right (Nat.le_of_not_lt hmid)] at h
      exact Or.inr ⟨k - 3 - mid.length, by omega, h⟩

/-- What a pause has done after some of its writes. -/
theorem offloadIdle_cases {archive : Option ArchiveFile} {staging : Option Tree} {k : ℕ}
    {w : World Digest} (h : (offloadIdle s d (start d archive staging))[k]? = some w) :
    k ≤ 2 ∧ InPlace d w ∨
    3 ≤ k ∧ (k = d.contents.paths.length + 6 → s.inside = true) ∧
      (∀ c, w.workdir = some c → ¬ c.Same d.contents) ∧
      (w.sidecar = none ∨ w.sidecar = some .torn) ∧
      (k + 1 = (offloadIdle s d (start d archive staging)).length → w.memory = none) ∨
    k = d.contents.paths.length + 6 ∧ s.inside = false ∧ w.workdir = none ∧
      w.archive = some d.archive ∧ w.memory = some (s.handle d) ∧
      w.sidecar = some (.handle (s.handle d)) := by
  have hlen := length_rmtree (s := s) d.contents
  have hstart : InPlace d (start d archive staging : World Digest) := ⟨rfl, rfl, rfl⟩
  rw [offloadIdle] at h ⊢
  cases henabled : s.enabled with
  | false =>
    simp only [henabled, Bool.false_eq_true, if_false] at h
    obtain ⟨hk, hw⟩ := List.getElem?_eq_some_iff.mp h
    rw [List.length_singleton] at hk
    left
    refine ⟨by omega, ?_⟩
    rw [← hw, List.getElem_singleton]
    exact hstart
  | true =>
    have hplace : ∀ opened written : World Digest, InPlace d opened → InPlace d written →
        w ∈ [start d archive staging, opened, written] → InPlace d w := by
      intro opened written hopened hwritten hw
      rcases List.mem_cons.mp hw with rfl | hw
      · exact hstart
      · rcases List.mem_cons.mp hw with rfl | hw
        · exact hopened
        · rwa [List.mem_singleton.mp hw]
    have hremoved : w ∈ (rmtree s d.contents).map (fun c => { start d archive staging with
          archive := some d.archive, workdir := some c }) →
        (∀ c, w.workdir = some c → ¬ c.Same d.contents) ∧ w.sidecar = none ∧ w.memory = none := by
      intro hw
      obtain ⟨c', hc', rfl⟩ := List.mem_map.mp hw
      refine ⟨fun c hc => ?_, rfl, rfl⟩
      rw [← Option.some.inj hc]
      exact not_same_rmtree hc'
    cases hinside : s.inside with
    | true =>
      simp only [henabled, hinside, if_true] at h ⊢
      rcases getElem?_parts h with ⟨hk, hw⟩ | ⟨hk, hlt, hw⟩ | ⟨j, hk, hw⟩
      · exact Or.inl ⟨hk, hplace _ _ ⟨rfl, rfl, rfl⟩ ⟨rfl, rfl, rfl⟩ hw⟩
      · obtain ⟨hsame, hsidecar, hmemory⟩ := hremoved hw
        exact Or.inr (Or.inl ⟨hk, fun _ => trivial, hsame, Or.inl hsidecar, fun _ => hmemory⟩)
      · rcases j with _ | j
        · cases hw
          refine Or.inr (Or.inl ⟨by omega, fun _ => trivial, fun c hc => ?_, Or.inl rfl, ?_⟩)
          · cases hc
          · exact fun _ => rfl
        · cases hw
    | false =>
      simp only [henabled, hinside, Bool.false_eq_true, if_false, if_true] at h ⊢
      rcases getElem?_parts h with ⟨hk, hw⟩ | ⟨hk, hlt, hw⟩ | ⟨j, hk, hw⟩
      · exact Or.inl ⟨hk, hplace _ _ ⟨rfl, rfl, rfl⟩ ⟨rfl, rfl, rfl⟩ hw⟩
      · obtain ⟨hsame, hsidecar, hmemory⟩ := hremoved hw
        rw [List.length_map, hlen] at hlt
        exact Or.inr (Or.inl ⟨hk, by omega, hsame, Or.inl hsidecar, fun _ => hmemory⟩)
      · rw [List.length_map, hlen] at hk
        simp only [List.length_append, List.length_cons, List.length_nil, List.length_map, hlen]
        -- the root is gone, the handle is held, the sidecar is begun, the sidecar is written
        rcases j with _ | _ | _ | _ | j
        · cases hw
          refine Or.inr (Or.inl ⟨by omega, by omega, fun c hc => ?_, Or.inl rfl, fun _ => rfl⟩)
          cases hc
        · cases hw
          refine Or.inr (Or.inl ⟨by omega, by omega, fun c hc => ?_, Or.inl rfl, by omega⟩)
          cases hc
        · cases hw
          refine Or.inr (Or.inl ⟨by omega, by omega, fun c hc => ?_, Or.inr rfl, by omega⟩)
          cases hc
        · cases hw
          exact Or.inr (Or.inr ⟨by omega, trivial, rfl, rfl, rfl, rfl⟩)
        · cases hw

variable [DecidableEq Digest] {w w' : World Digest}

theorem restoreIdle_of_inPlace (h : InPlace d w) : restoreIdle s w = ([w], true) := by
  obtain ⟨-, hsidecar, hmemory⟩ := h
  simp only [restoreIdle, hsidecar, hmemory]

theorem restoreIdle_of_lost (h : Lost d w) : (restoreIdle s w).1 = [w] := by
  obtain ⟨-, hsidecar, hmemory⟩ := h
  rcases hsidecar with hsidecar | hsidecar <;> simp only [restoreIdle, hsidecar, hmemory]

/-- A resume that finds the handle. -/
theorem restoreIdle_of_handle (hmemory : w.memory = none ∨ w.memory = some (s.handle d))
    (hsidecar : w.sidecar = some (.handle (s.handle d))) : restoreIdle s w =
      if (restore s (s.handle d) w).2 then
        (w :: (restore s (s.handle d) w).1 ++
          [{ (restore s (s.handle d) w).1.getLast?.getD w with memory := none },
            { (restore s (s.handle d) w).1.getLast?.getD w with memory := none, sidecar := none }],
          true)
      else (w :: (restore s (s.handle d) w).1, false) := by
  rcases hmemory with hmemory | hmemory <;> simp only [restoreIdle, hsidecar, hmemory]

/-- Between the writes of a restore the archive and the sidecar stand; at its end the archive is
extracted. -/
theorem restore_spec (harchive : w.archive = some d.archive) :
    (restore s (s.handle d) w).2 = s.extracts d ∧
    (∀ x ∈ (restore s (s.handle d) w).1, x.archive = w.archive ∧ x.sidecar = w.sidecar ∧
      x.memory = w.memory ∧ (s.extracts d = false → x.workdir = w.workdir)) ∧
    (s.extracts d = true → ∃ last, (restore s (s.handle d) w).1.getLast? = some last ∧
      last.workdir = some (s.unpacked d)) := by
  have hdigest : s.sha256 (.whole (addAll [] d.packed)) = (s.handle d).sha256 := rfl
  have hfile : w.archive = some (.whole (addAll [] d.packed)) := harchive
  cases hall : s.extracts d with
  | false =>
    have hrefused : (extractall s.filter s.place s.fuel .empty (addAll [] d.packed)).2 = false :=
      hall
    have hrestore : ∃ tree, restore s (s.handle d) w =
        ([{ w with staging := some tree }], false) := by
      refine ⟨(extractall s.filter s.place s.fuel .empty (addAll [] d.packed)).1, ?_⟩
      simp only [restore, hfile, hdigest, if_true, hrefused, Bool.false_eq_true, if_false]
    obtain ⟨tree, hrestore⟩ := hrestore
    rw [hrestore]
    refine ⟨rfl, fun x hx => ?_, fun h => by cases h⟩
    rw [List.mem_singleton.mp hx]
    exact ⟨rfl, rfl, rfl, fun _ => rfl⟩
  | true =>
    have hextracted : (extractall s.filter s.place s.fuel .empty (addAll [] d.packed)).2 = true :=
      hall
    simp only [restore, hfile, hdigest, if_true, hextracted]
    refine ⟨trivial, fun x hx => ?_, fun _ => ⟨_, List.getLast?_append_cons _ _ _, rfl⟩⟩
    simp only [List.mem_append, List.mem_cons, List.mem_map, List.not_mem_nil, or_false] at hx
    rcases hx with (rfl | ⟨c, -, rfl⟩) | rfl | rfl | rfl <;>
      exact ⟨rfl, rfl, rfl, fun h => by cases h⟩

omit [DecidableEq Digest] in
theorem Parked.crash (h : Parked s d w) (staging : Option Tree) :
    Parked s d (w.crash staging) where
  archive := h.archive
  memory := Or.inl rfl
  sidecar := by
    rcases h.sidecar with hhandle | ⟨hnone, -, hdone⟩
    · exact Or.inl hhandle
    · exact Or.inr ⟨hnone, rfl, hdone⟩
  refused := h.refused

theorem Parked.resume (h : Parked s d w) {x : World Digest} (hx : x ∈ (restoreIdle s w).1) :
    Parked s d x := by
  rcases h.sidecar with hhandle | ⟨hnone, hmemory, -⟩
  · obtain ⟨hall, hbetween, hlast⟩ := restore_spec (s := s) h.archive
    have hstill : ∀ x ∈ (restore s (s.handle d) w).1, Parked s d x := by
      intro x hx
      obtain ⟨harchive, hsidecar, hmemory, hworkdir⟩ := hbetween x hx
      refine ⟨harchive.trans h.archive, ?_, Or.inl (hsidecar.trans hhandle), fun hno => ?_⟩
      · rw [hmemory]
        exact h.memory
      · rw [hworkdir hno]
        exact h.refused hno
    rw [restoreIdle_of_handle h.memory hhandle, hall] at hx
    cases hextracts : s.extracts d with
    | false =>
      simp only [hextracts, Bool.false_eq_true, if_false] at hx
      rcases List.mem_cons.mp hx with rfl | hx
      · exact h
      · exact hstill x hx
    | true =>
      obtain ⟨last, hgetLast, hdone⟩ := hlast hextracts
      have hparked := hstill last (List.mem_of_getLast? hgetLast)
      simp only [hextracts, if_true, hgetLast, Option.getD_some, List.mem_append, List.mem_cons,
        List.cons_append, List.not_mem_nil, or_false] at hx
      rcases hx with rfl | hx | rfl | rfl
      · exact h
      · exact hstill x hx
      · have hsidecar := (hbetween last (List.mem_of_getLast? hgetLast)).2.1
        exact ⟨hparked.archive, Or.inl rfl, Or.inl (hsidecar.trans hhandle), hparked.refused⟩
      · exact ⟨hparked.archive, Or.inl rfl, Or.inr ⟨rfl, rfl, hdone, hextracts⟩, hparked.refused⟩
  · simp only [restoreIdle, hnone, hmemory, List.mem_singleton] at hx
    rwa [hx]

theorem Parked.kept (h : Parked s d w) : Kept s d w ↔
    s.extracts d = true ∧ (s.unpacked d).Same d.contents := by
  rcases h.sidecar with hhandle | ⟨hnone, hmemory, hdone, hall⟩
  · obtain ⟨hall, -, hlast⟩ := restore_spec (s := s) h.archive
    rw [Kept, restoreIdle_of_handle h.memory hhandle, hall]
    cases hextracts : s.extracts d with
    | false => simp only [Bool.false_eq_true, if_false, false_and]
    | true =>
      obtain ⟨last, hgetLast, hdone⟩ := hlast hextracts
      simp only [if_true, true_and, hgetLast, Option.getD_some]
      have hend : ∀ (a b : World Digest) (l : List (World Digest)),
          (w :: l ++ [a, b]).getLast? = some b := fun a b l => List.getLast?_append_cons _ _ _
      rw [hend]
      constructor
      · rintro ⟨w', c, hw', hc, hsame⟩
        cases hw'
        rw [hdone] at hc
        cases hc
        exact hsame
      · intro hsame
        exact ⟨_, _, rfl, hdone, hsame⟩
  · have hresume : restoreIdle s w = ([w], true) := by simp only [restoreIdle, hnone, hmemory]
    rw [Kept, hresume]
    simp only [hall, true_and, List.getLast?_singleton]
    constructor
    · rintro ⟨w', c, hw', hc, hsame⟩
      cases hw'
      rw [hdone] at hc
      cases hc
      exact hsame
    · intro hsame
      exact ⟨w, _, rfl, hdone, hsame⟩

/-- What every later resume finds, by the writes of the pause that were done. -/
theorem After.cases_on {archive : Option ArchiveFile} {staging : Option Tree} {k : ℕ}
    (h : After s d (start d archive staging) k w) :
    k ≤ 2 ∧ InPlace d w ∨
    3 ≤ k ∧ (k = d.contents.paths.length + 6 → s.inside = true) ∧ Lost d w ∨
    k = d.contents.paths.length + 6 ∧ s.inside = false ∧ Parked s d w := by
  have hparked : ∀ w : World Digest, w.workdir = none → w.archive = some d.archive →
      (w.memory = some (s.handle d) ∨ w.memory = none) →
      w.sidecar = some (.handle (s.handle d)) → Parked s d w := fun w hworkdir harchive hmemory
        hsidecar => ⟨harchive, hmemory.symm, Or.inl hsidecar, fun _ => hworkdir⟩
  induction h with
  | paused hw hlast =>
    rcases offloadIdle_cases hw with hplace | ⟨hk, hin, hno, hsidecar, hmemory⟩ |
      ⟨hk, hin, hworkdir, harchive, hmemory, hsidecar⟩
    · exact Or.inl hplace
    · exact Or.inr (Or.inl ⟨hk, hin, hno, hsidecar, hmemory hlast⟩)
    · exact Or.inr (Or.inr ⟨hk, hin, hparked _ hworkdir harchive (Or.inl hmemory) hsidecar⟩)
  | cut junk hw =>
    rcases offloadIdle_cases hw with ⟨hk, hworkdir, hsidecar, -⟩ | ⟨hk, hin, hno, hsidecar, -⟩ |
      ⟨hk, hin, hworkdir, harchive, -, hsidecar⟩
    · exact Or.inl ⟨hk, hworkdir, hsidecar, rfl⟩
    · exact Or.inr (Or.inl ⟨hk, hin, hno, hsidecar, rfl⟩)
    · exact Or.inr (Or.inr ⟨hk, hin, hparked _ hworkdir harchive (Or.inr rfl) hsidecar⟩)
  | resumeCut junk _ hx ih =>
    rcases ih with ⟨hk, hplace⟩ | ⟨hk, hin, hlost⟩ | ⟨hk, hin, hpark⟩
    · rw [restoreIdle_of_inPlace hplace, List.mem_singleton] at hx
      rw [hx]
      exact Or.inl ⟨hk, hplace.1, hplace.2.1, rfl⟩
    · rw [restoreIdle_of_lost hlost, List.mem_singleton] at hx
      rw [hx]
      exact Or.inr (Or.inl ⟨hk, hin, hlost.1, hlost.2.1, rfl⟩)
    · exact Or.inr (Or.inr ⟨hk, hin, (hpark.resume hx).crash junk⟩)
  | raised _ hno hx ih =>
    rcases ih with ⟨hk, hplace⟩ | ⟨hk, hin, hlost⟩ | ⟨hk, hin, hpark⟩
    · rw [restoreIdle_of_inPlace hplace] at hno
      cases hno
    · rw [restoreIdle_of_lost hlost, List.getLast?_singleton] at hx
      cases hx
      exact Or.inr (Or.inl ⟨hk, hin, hlost⟩)
    · exact Or.inr (Or.inr ⟨hk, hin, hpark.resume (List.mem_of_getLast? hx)⟩)

/-- After a pause that was cut or ended, and any resumes that were cut or raised, the next one ends
with the workdir in place just if nothing was removed yet, or all was written, the packs were
somewhere else, and the archive gives the workdir back. -/
theorem offload_kept_iff {archive : Option ArchiveFile} {staging : Option Tree} {k : ℕ}
    (h : After s d (start d archive staging) k w) : Kept s d w ↔
      k ≤ 2 ∨ k = d.contents.paths.length + 6 ∧ s.inside = false ∧
        Restorable s.filter s.place s.fuel d := by
  rcases h.cases_on with ⟨hk, hplace⟩ | ⟨hk, hin, hlost⟩ | ⟨hk, hin, hpark⟩
  · refine iff_of_true ?_ (Or.inl hk)
    rw [Kept, restoreIdle_of_inPlace hplace]
    exact ⟨rfl, w, d.contents, rfl, hplace.1, fun _ => rfl, fun _ => rfl⟩
  · refine iff_of_false ?_ ?_
    · rintro ⟨-, w', c, hw', hc, hsame⟩
      rw [restoreIdle_of_lost hlost, List.getLast?_singleton] at hw'
      cases hw'
      exact hlost.1 c hc hsame
    · rintro (hfew | ⟨hall, hno, -⟩)
      · omega
      · rw [hin hall] at hno
        cases hno
  · rw [hpark.kept]
    constructor
    · intro hback
      exact Or.inr ⟨hk, hin, (restorable_iff s.filter s.place s.fuel d).mpr hback⟩
    · rintro (hfew | ⟨-, -, hback⟩)
      · omega
      · exact (restorable_iff s.filter s.place s.fuel d).mp hback

end Cuts

/-- A setting whose digests tell archives apart, in a staging directory that nothing leads back
to. -/
def plainSetting : Setting ArchiveFile where
  sha256 := id
  filter := ⟨true, fun _ _ => false⟩
  place := .apart fun _ => true
  fuel := 9
  enabled := true
  inside := false
  order := Contents.paths
  order_perm := fun _ => List.Perm.refl _

/-- A workdir of one entry of the root. -/
def single (name : String) (n : Node) (hname : name ≠ "..") : Workdir where
  disk := {
    rooted := .ofRows ⟨[([name], n)], List.nodup_singleton _⟩ rfl
    inode := fun _ => 1
    named := by
      intro p m hp part hpart
      have hrow := Table.get?_eq_some.mp hp
      obtain ⟨rfl, -⟩ := Prod.mk.inj (List.mem_singleton.mp hrow)
      rwa [List.mem_singleton.mp hpart]
    shared := by
      intro p q content content' mtime mtime' hp hq _
      have hn := (Prod.mk.inj (List.mem_singleton.mp (Table.get?_eq_some.mp hp))).2
      have hm := (Prod.mk.inj (List.mem_singleton.mp (Table.get?_eq_some.mp hq))).2
      exact (Node.file.inj (hn.trans hm.symm)).1 }
  special := .empty
  proper := fun _ _ h => absurd h.symm (Option.some_ne_none _)
  apart := fun _ _ h => absurd h.symm (Option.some_ne_none _)

def note : Workdir := single "note" (.file [111, 107] 0) (by decide)

/-- A virtual environment's interpreter, say. -/
def outbound : Workdir := single "python" (.link "/usr/bin/python3") (by decide)

/-- The world after the whole pause of a workdir of one entry. -/
def parked (d : Workdir) : World ArchiveFile :=
  ⟨none, some d.archive, some (.handle ⟨d.archive⟩), some ⟨d.archive⟩, none⟩

theorem after_outbound : After plainSetting outbound (start outbound none none) 7
    (parked outbound) :=
  .paused rfl rfl

/-- A file with two names, and a link to one of them. -/
def linkedRows : Tree where
  rows := [(["alias"], .link "note"), (["copy"], .file [111, 107] 0),
    (["note"], .file [111, 107] 0)]
  nodup := by decide

theorem linkedRows_nodes :
    ∀ row ∈ linkedRows.rows, row.2 = .link "note" ∨ row.2 = .file [111, 107] 0 := by decide

def linked : Workdir where
  disk := {
    rooted := .ofRows linkedRows (by decide)
    inode := fun p => if p = ["alias"] then 2 else 1
    named := by
      intro p n hp
      have hrow := Table.get?_eq_some.mp hp
      have hall : ∀ row ∈ linkedRows.rows, ∀ part ∈ row.1, part ≠ ".." := by decide
      exact hall (p, n) hrow
    shared := by
      intro p q content content' mtime mtime' hp hq _
      rcases linkedRows_nodes _ (Table.get?_eq_some.mp hp) with hn | hn <;> cases hn
      rcases linkedRows_nodes _ (Table.get?_eq_some.mp hq) with hm | hm <;> cases hm
      rfl }
  special := .empty
  proper := fun _ _ h => absurd h.symm (Option.some_ne_none _)
  apart := fun _ _ h => absurd h.symm (Option.some_ne_none _)

theorem linked_packed : linked.packed = [(["tree"], .dir), (["tree", "alias"], .link "note"),
    (["tree", "copy"], .file 1 [111, 107]), (["tree", "note"], .file 1 [111, 107])] := by
  decide +kernel

theorem after_linked : After plainSetting linked (start linked none none) 9 (parked linked) :=
  .paused rfl rfl

theorem kept_linked : Kept plainSetting linked (parked linked) := by
  refine (offload_kept_iff after_linked).mpr (Or.inr ⟨rfl, rfl, fun _ => rfl, ?_, ?_⟩)
  · intro p target hp
    rcases linkedRows_nodes _ (Table.get?_eq_some.mp hp) with hn | hn <;> cases hn
    decide +kernel
  · intro before p target after hpacked
    rw [linked_packed] at hpacked
    -- The link is the second of the four.
    rcases before with _ | ⟨first, _ | ⟨second, _ | ⟨third, _ | ⟨fourth, _ | ⟨fifth, rest⟩⟩⟩⟩⟩ <;>
      cases hpacked
    decide +kernel

/-- A workdir with a link to the outside is packed and removed, and no resume restores it; and a
cut before the sidecar is written loses a workdir of plain files. -/
theorem not_kept : (After plainSetting outbound (start outbound none none) 7 (parked outbound) ∧
      ¬ Kept plainSetting outbound (parked outbound)) ∧
    ∃ w, After plainSetting note (start note none none) 5 w ∧ ¬ Kept plainSetting note w := by
  refine ⟨⟨after_outbound, fun h => ?_⟩, _, .cut none rfl, fun h => ?_⟩
  · have hraises : (restoreIdle plainSetting (parked outbound)).2 = false := by decide +kernel
    rw [h.1] at hraises
    cases hraises
  · obtain ⟨-, w', c, hw', hc, -⟩ := h
    cases hw'
    cases hc

end Recertia.Offload
